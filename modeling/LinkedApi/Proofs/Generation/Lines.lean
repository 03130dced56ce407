import LinkedApi.Proofs.Generation.Pieces
import LinkedApi.Proofs.Json.Printer
import LinkedApi.Proofs.Text.Lines

/-!
# The lines of the generated modules

Every piece of a generated module ends with a line break. The names that a handler refers to stand
on lines of their own, and no other line of the routes has the form of these.
-/

namespace LinkedApi

open Text

namespace Generated

def queryLine (name : String) : String :=
  "    let data = await queries.executeQuery(queries." ++ name ++ ", variables);"

def callLine (name : String) : String := "    data = await pipeModules." ++ name ++ "(data);"

def handlerLines (binding : RouteBinding) : List String :=
  ["router." ++ binding.route.method.name ++ "(" ++ literalOf binding.route.path ++
      ", async (req, res, next) => \x7b",
    "  try \x7b",
    "    const variables = \x7b ...req.query, ...req.params \x7d;",
    queryLine binding.query] ++
  binding.pipes.map callLine ++
  ["    res.json(data);", "  \x7d catch (err) \x7b", "    next(err);", "  \x7d", "\x7d);", ""]

theorem pipeCall_eq (name : String) : pipeCall name = callLine name ++ "\n" := by
  have hlast : "(data);\n" = "(data);" ++ "\n" := rfl
  delta pipeCall callLine
  rewrite [hlast, String.append_assoc, String.append_assoc, String.append_assoc]
  rfl

@[simp]
theorem join_pipeCall (names : List String) :
    String.join (names.map pipeCall) = unlines (names.map callLine) := by
  rw [unlines, List.map_map]
  congr 1
  exact List.map_congr_left fun name _ => pipeCall_eq name

set_option maxRecDepth 4096 in
theorem handler_eq_unlines (binding : RouteBinding) :
    handler binding = unlines (handlerLines binding) := by
  have hopen : ", async (req, res, next) => \x7b
  try \x7b
    const variables = \x7b ...req.query, ...req.params \x7d;
    let data = await queries.executeQuery(queries." =
      ", async (req, res, next) => \x7b" ++ ("\n" ++ ("  try \x7b" ++ ("\n" ++
        ("    const variables = \x7b ...req.query, ...req.params \x7d;" ++ ("\n" ++
          "    let data = await queries.executeQuery(queries."))))) := by
    rewrite [← String.toList_inj]
    repeat rewrite [String.toList_append]
    repeat rewrite [String.toList_ofList]
    decide
  have hrun : ", variables);\n" = ", variables);" ++ "\n" := rfl
  have hclose : "    res.json(data);
  \x7d catch (err) \x7b
    next(err);
  \x7d
\x7d);

" = unlines
      ["    res.json(data);", "  \x7d catch (err) \x7b", "    next(err);", "  \x7d", "\x7d);", ""] := by
    delta unlines
    rewrite [← String.toList_inj, String.toList_join]
    simp only [List.map_cons, List.map_nil, List.flatMap_cons, List.flatMap_nil]
    repeat rewrite [String.toList_append]
    repeat rewrite [String.toList_ofList]
    decide
  delta handler handlerLines queryLine
  rewrite [unlines_append, unlines_append, ← hclose, ← join_pipeCall]
  generalize String.join (binding.pipes.map pipeCall) = calls
  rewrite [hopen, hrun]
  delta unlines
  simp only [List.map_cons, List.map_nil, String.join_cons, String.join_nil, String.append_assoc,
    String.append_empty]

/-- No line break in a text that stands between two fixed texts. -/
theorem newline_not_mem_surrounded {first last text : String} {cs ds : List Char}
    (hfirst : first.toList = cs) (hlast : last.toList = ds) (hfixed : '\n' ∉ cs ++ ds)
    (h : '\n' ∉ text.toList) : '\n' ∉ (first ++ text ++ last).toList := by
  simp only [List.mem_append, not_or] at hfixed
  simp only [String.toList_append, hfirst, hlast, List.mem_append, not_or]
  exact ⟨⟨hfixed.1, h⟩, hfixed.2⟩

theorem newline_not_mem_literalOf (text : String) : '\n' ∉ (literalOf text).toList := by
  rw [literalOf, String.toList_ofList]
  exact newline_not_mem_literal _

/-! ## What the lines of the routes are -/

/-- How a line begins; the two kinds of lines that refer to something begin like no other. -/
def beginning (line : String) : List Char := line.toList.take 5

theorem beginning_append {first : String} {cs : List Char} (h : first.toList = cs)
    (hlength : 5 ≤ cs.length) (rest : String) : beginning (first ++ rest) = cs.take 5 := by
  rw [beginning, String.toList_append, h, List.take_append_of_le_length hlength]

@[simp]
theorem beginning_queryLine (name : String) :
    beginning (queryLine name) = [' ', ' ', ' ', ' ', 'l'] := by
  delta queryLine
  rewrite [String.append_assoc]
  exact (beginning_append String.toList_ofList (by decide) _).trans rfl

@[simp]
theorem beginning_callLine (name : String) :
    beginning (callLine name) = [' ', ' ', ' ', ' ', 'd'] := by
  delta callLine
  rewrite [String.append_assoc]
  exact (beginning_append String.toList_ofList (by decide) _).trans rfl

theorem eq_of_surrounded {first last x y : String} (h : first ++ x ++ last = first ++ y ++ last) :
    x = y := by
  rw [← String.toList_inj] at h ⊢
  simpa only [String.toList_append, List.append_cancel_right_eq, List.append_cancel_left_eq] using h

/-- A line that runs a query tells the name of the query. -/
theorem queryLine_inj {name name' : String} (h : queryLine name = queryLine name') :
    name = name' :=
  eq_of_surrounded h

theorem callLine_inj {name name' : String} (h : callLine name = callLine name') : name = name' :=
  eq_of_surrounded h

theorem queryLine_ne_callLine (name name' : String) : queryLine name ≠ callLine name' := by
  intro h
  have hbeginning := congrArg beginning h
  rw [beginning_queryLine, beginning_callLine] at hbeginning
  exact absurd hbeginning (by decide)

/-- A line that refers to nothing. -/
def IsPlainLine (line : String) : Prop := ∀ name, line ≠ queryLine name ∧ line ≠ callLine name

def referring : List (List Char) := [[' ', ' ', ' ', ' ', 'l'], [' ', ' ', ' ', ' ', 'd']]

theorem isPlainLine_of_beginning {line : String} (h : beginning line ∉ referring) :
    IsPlainLine line := by
  intro name
  constructor
  · rintro rfl
    rw [beginning_queryLine] at h
    exact h (by decide)
  · rintro rfl
    rw [beginning_callLine] at h
    exact h (by decide)

theorem isPlainLine_of_toList {line : String} {cs : List Char} (h : line.toList = cs)
    (hplain : cs.take 5 ∉ referring) : IsPlainLine line := by
  apply isPlainLine_of_beginning
  rwa [beginning, h]

set_option maxRecDepth 2048 in
/-- The lines of the header are empty, or they begin with the same characters. -/
theorem beginning_routesHeader : ∀ line ∈ lines Writers.Routes.header,
    beginning line ∈ [[], ['c', 'o', 'n', 's', 't']] :=
  forall_mem_lines (P := fun cs => cs.take 5 ∈ [[], ['c', 'o', 'n', 's', 't']])
    String.toList_ofList (by decide)

theorem isPlainLine_routesHeader : ∀ line ∈ lines Writers.Routes.header, IsPlainLine line := by
  intro line hline
  have hothers : ∀ cs ∈ [[], ['c', 'o', 'n', 's', 't']], cs ∉ referring := by decide
  exact isPlainLine_of_beginning (hothers _ (beginning_routesHeader line hline))

def routeExportLines (routes : List Route) : List String :=
  ["module.exports = router;",
    "module.exports.routes = " ++ (Json.arr (routes.map Route.toJson)).compress ++ ";"]

@[simp]
theorem lines_routeExports (routes : List Route) :
    lines (routeExports routes) = routeExportLines routes := by
  have hopen : "module.exports = router;\nmodule.exports.routes = " =
      "module.exports = router;" ++ ("\n" ++ "module.exports.routes = ") := by
    rewrite [← String.toList_inj]
    repeat rewrite [String.toList_append]
    repeat rewrite [String.toList_ofList]
    rfl
  have hclose : ";\n" = ";" ++ "\n" := rfl
  have hjson := Json.newline_not_mem_compress (.arr (routes.map Route.toJson))
  delta routeExports routeExportLines
  generalize (Json.arr (routes.map Route.toJson)).compress = json at hjson ⊢
  have hlines : "module.exports = router;\nmodule.exports.routes = " ++ json ++ ";\n" =
      unlines ["module.exports = router;", "module.exports.routes = " ++ json ++ ";"] := by
    rewrite [hopen, hclose, unlines_cons, unlines_cons]
    simp only [String.append_assoc]
    congr 5
  rewrite [hlines]
  refine lines_unlines fun line hline => ?_
  rcases List.mem_pair.mp hline with rfl | rfl
  · rewrite [String.toList_ofList]
    decide
  · exact newline_not_mem_surrounded String.toList_ofList String.toList_ofList (by decide) hjson

/-- The lines of the export section begin with the same characters. -/
theorem beginning_routeExports {routes : List Route} {line : String}
    (h : line ∈ lines (routeExports routes)) : beginning line = ['m', 'o', 'd', 'u', 'l'] := by
  rw [lines_routeExports] at h
  rcases List.mem_pair.mp h with rfl | rfl
  · rewrite [beginning, String.toList_ofList]
    rfl
  · rewrite [String.append_assoc, beginning_append String.toList_ofList (by decide)]
    rfl

/-- The export section of the routes refers to nothing. -/
theorem isPlainLine_routeExports (routes : List Route) :
    ∀ line ∈ lines (routeExports routes), IsPlainLine line := by
  intro line hline
  apply isPlainLine_of_beginning
  rw [beginning_routeExports hline]
  decide

theorem newline_not_mem_queryLine {name : String} (h : isIdentifier name) :
    '\n' ∉ (queryLine name).toList :=
  newline_not_mem_surrounded String.toList_ofList String.toList_ofList (by decide)
    (newline_not_mem_identifier h)

theorem newline_not_mem_callLine {name : String} (h : isIdentifier name) :
    '\n' ∉ (callLine name).toList :=
  newline_not_mem_surrounded String.toList_ofList String.toList_ofList (by decide)
    (newline_not_mem_identifier h)

theorem newline_not_mem_firstLine (route : Route) :
    '\n' ∉ ("router." ++ route.method.name ++ "(" ++ literalOf route.path ++
      ", async (req, res, next) => \x7b").toList := by
  have hmethod : '\n' ∉ route.method.name.toList := by cases route.method <;> decide
  have hpath := newline_not_mem_literalOf route.path
  have hverb : '\n' ∉ ("router." ++ route.method.name ++ "(").toList :=
    newline_not_mem_surrounded String.toList_ofList String.toList_ofList (by decide) hmethod
  have hlast : '\n' ∉ (", async (req, res, next) => \x7b").toList := by
    rewrite [String.toList_ofList]
    decide
  rewrite [String.toList_append, String.toList_append, List.mem_append, List.mem_append]
  rintro ((hmem | hmem) | hmem)
  · exact hverb hmem
  · exact hpath hmem
  · exact hlast hmem

theorem newline_not_mem_handlerLines {binding : RouteBinding} (hquery : isIdentifier binding.query)
    (hpipes : ∀ name ∈ binding.pipes, isIdentifier name) :
    ∀ line ∈ handlerLines binding, '\n' ∉ line.toList := by
  intro line hline
  simp only [handlerLines, List.mem_append, List.mem_cons, List.not_mem_nil, or_false,
    List.mem_map] at hline
  rcases hline with ((rfl | rfl | rfl | rfl) | ⟨name, hname, rfl⟩) | rfl | rfl | rfl | rfl | rfl | rfl
  · exact newline_not_mem_firstLine binding.route
  · rewrite [String.toList_ofList]; decide
  · rewrite [String.toList_ofList]; decide
  · exact newline_not_mem_queryLine hquery
  · exact newline_not_mem_callLine (hpipes name hname)
  all_goals
    rewrite [String.toList_ofList]
    decide

/-- Identifiers break no line, so that a handler has its own lines. -/
theorem lines_handler {binding : RouteBinding} (hquery : isIdentifier binding.query)
    (hpipes : ∀ name ∈ binding.pipes, isIdentifier name) :
    lines (handler binding) = handlerLines binding := by
  rw [handler_eq_unlines, lines_unlines (newline_not_mem_handlerLines hquery hpipes)]

/-- A handler refers to its query and to its pipe modules, and to nothing else. -/
theorem mem_handlerLines {binding : RouteBinding} {line : String}
    (h : line ∈ handlerLines binding) :
    IsPlainLine line ∨ line = queryLine binding.query ∨ ∃ name ∈ binding.pipes, line = callLine name := by
  simp only [handlerLines, List.mem_append, List.mem_cons, List.not_mem_nil, or_false,
    List.mem_map] at h
  rcases h with ((rfl | rfl | rfl | rfl) | ⟨name, hname, rfl⟩) | rfl | rfl | rfl | rfl | rfl | rfl
  · apply Or.inl
    apply isPlainLine_of_beginning
    simp only [String.append_assoc]
    rewrite [beginning_append String.toList_ofList (by decide)]
    decide
  · exact .inl (isPlainLine_of_toList String.toList_ofList (by decide))
  · exact .inl (isPlainLine_of_toList String.toList_ofList (by decide))
  · exact .inr (.inl rfl)
  · exact .inr (.inr ⟨name, hname, rfl⟩)
  all_goals exact .inl (isPlainLine_of_toList String.toList_ofList (by decide))

/-! ## Ends of pieces -/

theorem endsLine_of_toList {text : String} {cs : List Char} (h : text.toList = cs)
    (hlast : cs.getLast? = some '\n') : EndsLine text := by
  obtain ⟨before, hbefore⟩ := List.getLast?_eq_some_iff.mp hlast
  refine ⟨String.ofList before, ?_⟩
  rw [← String.toList_inj, h, hbefore, String.toList_append, String.toList_ofList]
  rfl

theorem endsLine_pipeHeader : EndsLine Writers.PipeModules.header :=
  endsLine_of_toList String.toList_ofList (by decide)

set_option maxRecDepth 2048 in
theorem endsLine_routesHeader : EndsLine Writers.Routes.header :=
  endsLine_of_toList String.toList_ofList (by decide)

set_option maxRecDepth 2048 in
theorem endsLine_queryHeader (sources : List DataSource) : EndsLine (queryHeader sources) := by
  delta queryHeader
  exact (endsLine_of_toList String.toList_ofList (by decide)).append _

theorem endsLine_pipeDefinition (pipe : PipeModule) : EndsLine (pipeDefinition pipe) := by
  delta pipeDefinition
  exact (endsLine_of_toList String.toList_ofList (by decide)).append _

theorem endsLine_queryDefinition (query : Query) : EndsLine (queryDefinition query) := by
  delta queryDefinition
  exact (endsLine_of_toList String.toList_ofList (by decide)).append _

theorem endsLine_handler (binding : RouteBinding) : EndsLine (handler binding) := by
  rw [handler_eq_unlines]
  exact endsLine_unlines _ _

theorem endsLine_pipeExports (names : List String) : EndsLine (pipeExports names) := by
  delta pipeExports
  split
  · exact endsLine_of_toList String.toList_ofList (by decide)
  · exact (endsLine_of_toList String.toList_ofList (by decide)).append _

theorem endsLine_queryExports (names : List String) : EndsLine (queryExports names) := by
  delta queryExports
  exact (endsLine_of_toList String.toList_ofList (by decide)).append _

theorem endsLine_routeExports (routes : List Route) : EndsLine (routeExports routes) := by
  delta routeExports
  exact (endsLine_of_toList String.toList_ofList (by decide)).append _

end Generated

end LinkedApi
