import LinkedApi.Proofs.Generation.Lines

/-!
# Handlers in the module of the routes

Each handler is registered with the router in a line of its own, and no other line begins like
this. The handlers of a module are thus counted by reading it line by line.
-/

namespace LinkedApi

open Text

namespace Generated

/-- How a line that registers a handler begins. -/
def routerCall : List Char := ['r', 'o', 'u', 't', 'e', 'r', '.']

def registrations (text : String) : List String :=
  (lines text).filter fun line => line.toList.take 7 = routerCall

def registration (route : Route) : String :=
  "router." ++ route.method.name ++ "(" ++ literalOf route.path ++
    ", async (req, res, next) => \x7b"

theorem registrations_append {before : String} (h : AtLineStart before) (after : String) :
    registrations (before ++ after) = registrations before ++ registrations after := by
  rw [registrations, lines_append h, List.filter_append]
  rfl

@[simp]
theorem take_registration (route : Route) : (registration route).toList.take 7 = routerCall := by
  delta registration
  simp only [String.append_assoc]
  rewrite [String.toList_append, String.toList_ofList]
  rfl

/-- A line with another beginning does not begin like this. -/
theorem take_ne_of_beginning {line : String} {start : List Char} (hlength : 5 ≤ start.length)
    (h : beginning line ≠ start.take 5) : line.toList.take start.length ≠ start := by
  intro hline
  apply h
  rw [← hline, beginning, List.take_take, Nat.min_eq_left hlength]

theorem take_ne_routerCall {line : String} (h : beginning line ≠ routerCall.take 5) :
    line.toList.take 7 ≠ routerCall := by
  have hlength : 5 ≤ routerCall.length := by decide
  exact take_ne_of_beginning hlength h

theorem beginning_of_toList {line : String} {cs : List Char} (h : line.toList = cs) :
    beginning line = cs.take 5 := by
  rw [beginning, h]

/-- The lines of a handler after its first are indented or close something. -/
theorem beginning_of_mem_tail {binding : RouteBinding} {line : String}
    (h : line ∈ (handlerLines binding).tail) :
    beginning line ≠ ['r', 'o', 'u', 't', 'e'] ∧ beginning line ≠ ['m', 'o', 'd', 'u', 'l'] := by
  simp only [handlerLines, List.cons_append, List.tail_cons, List.nil_append, List.mem_append,
    List.mem_cons, List.not_mem_nil, or_false, List.mem_map] at h
  rcases h with rfl | rfl | rfl | ⟨name, -, rfl⟩ | rfl | rfl | rfl | rfl | rfl | rfl
  · rewrite [beginning_of_toList String.toList_ofList]; decide
  · rewrite [beginning_of_toList String.toList_ofList]; decide
  · rewrite [beginning_queryLine]; decide
  · rewrite [beginning_callLine]; decide
  all_goals
    rewrite [beginning_of_toList String.toList_ofList]
    decide

/-- Of the lines of a handler only the first registers it. -/
theorem registrations_handler {binding : RouteBinding} (hquery : isIdentifier binding.query)
    (hpipes : ∀ name ∈ binding.pipes, isIdentifier name) :
    registrations (handler binding) = [registration binding.route] := by
  have hothers : ∀ line ∈ (handlerLines binding).tail, line.toList.take 7 ≠ routerCall :=
    fun line hline => take_ne_routerCall (beginning_of_mem_tail hline).1
  have hlines : handlerLines binding = registration binding.route :: (handlerLines binding).tail :=
    rfl
  rw [registrations, lines_handler hquery hpipes, hlines,
    List.filter_cons_of_pos (by simp),
    List.filter_eq_nil_iff.mpr (by simpa using hothers)]

/-- Handlers register their routes, one line each. -/
theorem registrations_handlers {bindings : List RouteBinding}
    (h : ∀ binding ∈ bindings,
      isIdentifier binding.query ∧ ∀ name ∈ binding.pipes, isIdentifier name) :
    registrations (String.join (bindings.map handler)) =
      bindings.map fun binding => registration binding.route := by
  induction bindings with
  | nil => rfl
  | cons binding rest ih =>
    rw [List.forall_mem_cons] at h
    rw [List.map_cons, String.join_cons, registrations_append (.inr (endsLine_handler binding)),
      registrations_handler h.1.1 h.1.2, ih h.2]
    rfl

/-- Where no line begins like one that registers a handler, nothing is registered. -/
theorem registrations_eq_nil {text : String}
    (h : ∀ line ∈ lines text, beginning line ≠ routerCall.take 5) : registrations text = [] := by
  rw [registrations, List.filter_eq_nil_iff]
  intro line hline
  simpa using take_ne_routerCall (h line hline)

@[simp]
theorem registrations_routesHeader : registrations Writers.Routes.header = [] := by
  have hothers : ∀ cs ∈ [[], ['c', 'o', 'n', 's', 't']], cs ≠ routerCall.take 5 := by decide
  exact registrations_eq_nil fun line hline => hothers _ (beginning_routesHeader line hline)

@[simp]
theorem registrations_routeExports (routes : List Route) :
    registrations (routeExports routes) = [] := by
  refine registrations_eq_nil fun line hline => ?_
  rw [beginning_routeExports hline]
  decide

theorem atLineStart_handlers (bindings : List RouteBinding) :
    AtLineStart (Writers.Routes.header ++ String.join (bindings.map handler)) :=
  AtLineStart.append (.inr endsLine_routesHeader)
    (.join (by simpa using fun binding _ => endsLine_handler binding))

/-- A module registers the handlers that it was written with, before its export section and with
it. -/
theorem registrations_layout {bindings : List RouteBinding}
    (h : ∀ binding ∈ bindings,
      isIdentifier binding.query ∧ ∀ name ∈ binding.pipes, isIdentifier name) :
    registrations (Writers.Routes.header ++ String.join (bindings.map handler)) =
      bindings.map fun binding => registration binding.route := by
  rw [registrations_append (.inr endsLine_routesHeader), registrations_routesHeader,
    registrations_handlers h, List.nil_append]

/-- The module of the routes registers the routes of its bindings and no others. -/
theorem registrations_routes {bindings : List RouteBinding}
    (h : ∀ binding ∈ bindings,
      isIdentifier binding.query ∧ ∀ name ∈ binding.pipes, isIdentifier name)
    (routes : List Route) :
    registrations (Writers.Routes.header ++ String.join (bindings.map handler) ++
      routeExports routes) = bindings.map fun binding => registration binding.route := by
  rw [registrations_append (atLineStart_handlers bindings), registrations_layout h,
    registrations_routeExports, List.append_nil]

end Generated

end LinkedApi
