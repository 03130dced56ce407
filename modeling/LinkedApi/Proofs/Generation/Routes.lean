import LinkedApi.Proofs.Generation.Literals
import LinkedApi.Proofs.Json.Parser
import LinkedApi.Proofs.Query

/-!
# Reading the routes of a module

The route of a handler stands in the line that registers it, and all routes stand in the line that
exports them. Both are read from the text of the module alone, without the entities that it was
written for.
-/

namespace LinkedApi

open Text

namespace Route

/-- An array of routes is read back. -/
theorem mapM_ofJson?_toJson (routes : List Route) :
    (routes.map toJson).mapM ofJson? = some routes := by
  have hread : ofJson? ∘ toJson = pure := by
    funext route
    have hmethod : Method.ofName? route.method.name = some route.method :=
      Method.ofName?_eq_some.mpr rfl
    simp [ofJson?, toJson, Method.ofJson?, Method.toJson, Json.record?, Json.single?,
      Json.constant?, Json.string?, hmethod]
  rw [List.mapM_map, hread]
  exact List.mapM_pure.trans (congrArg some (List.map_id' routes))

theorem areExact_toJson (routes : List Route) : Json.AreExact (routes.map toJson) := by
  induction routes with
  | nil => trivial
  | cons route rest ih =>
    refine ⟨⟨?_, trivial, trivial, trivial⟩, ih⟩
    simp

theorem levelsOfItems_toJson_le (routes : List Route) :
    Json.levelsOfItems (routes.map toJson) ≤ 1 := by
  induction routes with
  | nil => exact Nat.zero_le 1
  | cons route rest ih => exact Nat.max_le.mpr ⟨Nat.le_refl 1, ih⟩

/-- The printed array of some routes is parsed to this array. -/
@[simp]
theorem parse?_compress (routes : List Route) :
    Json.parse? (Json.arr (routes.map toJson)).compress = some (.arr (routes.map toJson)) := by
  have hexact : (Json.arr (routes.map toJson)).IsExact := areExact_toJson routes
  refine Json.parse?_of_spells hexact ?_ ?_
  · rw [Json.compress, String.toList_ofList]
    exact Json.spells_encode hexact
  · have hlevels := levelsOfItems_toJson_le routes
    rw [Json.levels, Json.depthLimit]
    omega

end Route

namespace Generated

/-! ## Reading -/

/-- The route of a line that registers a handler. The name of its method stands before the first
parenthesis, and its path is the first literal. -/
def registeredRoute? (line : String) : Option Route := do
  let name := String.ofList ((line.toList.drop 7).takeWhile (· ≠ '('))
  return { method := ← Method.ofName? name, path := ← firstLiteral? line }

def registeredRoutes? (text : String) : Option (List Route) :=
  (registrations text).mapM registeredRoute?

/-- How the line begins that exports the routes. -/
def routesExport : List Char :=
  ['m', 'o', 'd', 'u', 'l', 'e', '.', 'e', 'x', 'p', 'o', 'r', 't', 's', '.', 'r', 'o', 'u', 't',
    'e', 's', ' ', '=', ' ']

/-- The routes in a line that exports them; a semicolon follows the array. -/
def exportedRoutes? (line : String) : Option (List Route) :=
  match Json.parse? (String.ofList (line.toList.drop routesExport.length).dropLast) with
  | some (.arr items) => items.mapM Route.ofJson?
  | _ => none

def routeLists (text : String) : List (Option (List Route)) :=
  ((lines text).filter fun line => line.toList.take routesExport.length = routesExport).map
    exportedRoutes?

/-! ## Handlers -/

/-- A route is read back from the line that registers its handler. -/
@[simp]
theorem registeredRoute?_registration (route : Route) :
    registeredRoute? (registration route) = some route := by
  have hname : route.method.name.toList.all (fun c => decide (c ≠ '(')) = true := by
    cases route.method <;> decide
  have hrest : (registration route).toList.drop 7 = route.method.name.toList ++
      '(' :: (literalOf route.path ++ ", async (req, res, next) => \x7b").toList := by
    have hparenthesis : ("(" : String).toList = ['('] := rfl
    delta registration
    rewrite [String.append_assoc, String.append_assoc, String.append_assoc, String.toList_append,
      String.toList_append, String.toList_append, hparenthesis, String.toList_ofList]
    rfl
  have hmethod : String.ofList (((registration route).toList.drop 7).takeWhile (· ≠ '(')) =
      route.method.name := by
    rw [hrest, List.takeWhile_append_of_pos (List.all_eq_true.mp hname),
      List.takeWhile_cons_of_neg (by simp), List.append_nil, String.ofList_toList]
  simp only [registeredRoute?, hmethod, Method.ofName?_eq_some.mpr rfl,
    firstLiteral?_registration, Option.bind_eq_bind, Option.bind_some]
  rfl

theorem registeredRoutes?_of_registrations {text : String} {bindings : List RouteBinding}
    (h : registrations text = bindings.map fun binding => registration binding.route) :
    registeredRoutes? text = some (bindings.map (·.route)) := by
  have hread : (registeredRoute? ∘ fun binding : RouteBinding => registration binding.route) =
      fun binding => pure binding.route :=
    funext fun binding => registeredRoute?_registration binding.route
  rw [registeredRoutes?, h, List.mapM_map, hread]
  exact List.mapM_pure

/-! ## Exports -/

theorem routeLists_append {before : String} (h : AtLineStart before) (after : String) :
    routeLists (before ++ after) = routeLists before ++ routeLists after := by
  rw [routeLists, lines_append h, List.filter_append, List.map_append]
  rfl

/-- Where no line begins like one that exports the routes, none are exported. -/
theorem routeLists_eq_nil {text : String}
    (h : ∀ line ∈ lines text, beginning line ≠ routesExport.take 5) : routeLists text = [] := by
  rw [routeLists, List.map_eq_nil_iff, List.filter_eq_nil_iff]
  intro line hline
  simpa using take_ne_of_beginning (by decide) (h line hline)

@[simp]
theorem routeLists_routesHeader : routeLists Writers.Routes.header = [] := by
  have hothers : ∀ cs ∈ [[], ['c', 'o', 'n', 's', 't']], cs ≠ routesExport.take 5 := by decide
  exact routeLists_eq_nil fun line hline => hothers _ (beginning_routesHeader line hline)

theorem routeLists_handler {binding : RouteBinding} (hquery : isIdentifier binding.query)
    (hpipes : ∀ name ∈ binding.pipes, isIdentifier name) : routeLists (handler binding) = [] := by
  refine routeLists_eq_nil fun line hline => ?_
  rw [lines_handler hquery hpipes] at hline
  rcases List.mem_cons.mp hline with rfl | hline
  · simp only [String.append_assoc]
    rewrite [beginning_append String.toList_ofList (by decide)]
    decide
  · exact (beginning_of_mem_tail hline).2

/-- The routes are read back from the line that exports them. -/
@[simp]
theorem exportedRoutes?_append (routes : List Route) :
    exportedRoutes? ("module.exports.routes = " ++ (Json.arr (routes.map Route.toJson)).compress ++
      ";") = some routes := by
  have hstart : ("module.exports.routes = " : String).toList = routesExport := String.toList_ofList
  have hjson : String.ofList (("module.exports.routes = " ++
      (Json.arr (routes.map Route.toJson)).compress ++ ";").toList.drop
        routesExport.length).dropLast = (Json.arr (routes.map Route.toJson)).compress := by
    rw [String.append_assoc, String.toList_append, hstart, List.drop_left, String.toList_append]
    exact (congrArg String.ofList List.dropLast_concat).trans String.ofList_toList
  rw [exportedRoutes?, hjson, Route.parse?_compress]
  exact Route.mapM_ofJson?_toJson routes

@[simp]
theorem routeLists_routeExports (routes : List Route) :
    routeLists (routeExports routes) = [some routes] := by
  have hfirst : ("module.exports = router;" : String).toList.take routesExport.length ≠
      routesExport := by
    rewrite [String.toList_ofList]
    decide
  have hsecond : ("module.exports.routes = " ++ (Json.arr (routes.map Route.toJson)).compress ++
      ";").toList.take routesExport.length = routesExport := by
    have hstart : ("module.exports.routes = " : String).toList = routesExport :=
      String.toList_ofList
    rw [String.append_assoc, String.toList_append, hstart, List.take_left]
  rw [routeLists, lines_routeExports, routeExportLines,
    List.filter_cons_of_neg (by exact fun h => hfirst (of_decide_eq_true h)),
    List.filter_cons_of_pos (by exact decide_eq_true hsecond), List.filter_nil, List.map_singleton,
    exportedRoutes?_append]

/-! ## Modules -/

section Modules

variable {bindings : List RouteBinding}

/-- The handlers of a module are read back, before its export section and with it. -/
theorem registeredRoutes?_layout (h : ∀ binding ∈ bindings,
      isIdentifier binding.query ∧ ∀ name ∈ binding.pipes, isIdentifier name) :
    registeredRoutes? (Writers.Routes.header ++ String.join (bindings.map handler)) =
      some (bindings.map (·.route)) :=
  registeredRoutes?_of_registrations (registrations_layout h)

/-- The routes of the handlers are read back from their module. -/
theorem registeredRoutes?_routes (h : ∀ binding ∈ bindings,
      isIdentifier binding.query ∧ ∀ name ∈ binding.pipes, isIdentifier name)
    (routes : List Route) :
    registeredRoutes? (Writers.Routes.header ++ String.join (bindings.map handler) ++
      routeExports routes) = some (bindings.map (·.route)) :=
  registeredRoutes?_of_registrations (registrations_routes h routes)

theorem routeLists_layout (h : ∀ binding ∈ bindings,
      isIdentifier binding.query ∧ ∀ name ∈ binding.pipes, isIdentifier name) :
    routeLists (Writers.Routes.header ++ String.join (bindings.map handler)) = [] := by
  rw [routeLists_append (.inr endsLine_routesHeader), routeLists_routesHeader, List.nil_append]
  induction bindings with
  | nil => rfl
  | cons binding rest ih =>
    rw [List.forall_mem_cons] at h
    rw [List.map_cons, String.join_cons, routeLists_append (.inr (endsLine_handler binding)),
      routeLists_handler h.1.1 h.1.2, ih h.2, List.append_nil]

/-- The routes that are exported are read back from their module. -/
theorem routeLists_routes (h : ∀ binding ∈ bindings,
      isIdentifier binding.query ∧ ∀ name ∈ binding.pipes, isIdentifier name)
    (routes : List Route) :
    routeLists (Writers.Routes.header ++ String.join (bindings.map handler) ++
      routeExports routes) = [some routes] := by
  rw [routeLists_append (atLineStart_handlers bindings), routeLists_layout h,
    routeLists_routeExports, List.nil_append]

end Modules

end Generated

end LinkedApi
