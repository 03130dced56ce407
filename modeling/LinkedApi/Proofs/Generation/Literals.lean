import LinkedApi.Proofs.Generation.Bindings
import LinkedApi.Proofs.Generation.Handlers
import LinkedApi.Proofs.Text.Literal

/-!
# Literals of the generated modules

The source of a pipe module stands in a comment before its definition, the path of a route in the
line that registers its handler, and the text of a query in a line of its definition. None of these
lines has a quote before the literal, so that each text is read from its line. The code of a pipe
module may have any lines, and a source is read where its definition begins.
-/

namespace LinkedApi

open Text

namespace Generated

/-! ## Reading -/

def firstLiteral? (code : String) : Option String :=
  (readLiteral? (code.toList.dropWhile (· ≠ '\''))).map fun (cs, _) => String.ofList cs

def firstLine (code : String) : String :=
  String.ofList (code.toList.takeWhile (!isLineTerminator ·))

def routePaths (text : String) : List String := (registrations text).filterMap firstLiteral?

/-- How a line that has the text of a query begins. -/
def queryField : List Char := [' ', ' ', 'q', 'u', 'e', 'r', 'y', ':', ' ']

/-- The text of a query in a line that has one. -/
def queryText? (line : String) : Option String :=
  if line.toList.take 9 = queryField then firstLiteral? line else none

def queryTexts (text : String) : List String := (lines text).filterMap queryText?

/-- The first literal is read where no quote stands before it. -/
theorem firstLiteral?_append {before : String} (h : '\'' ∉ before.toList) (text after : String) :
    firstLiteral? (before ++ literalOf text ++ after) = some text := by
  have hbefore : ∀ c ∈ before.toList, decide (c ≠ '\'') = true :=
    fun c hc => decide_eq_true fun hquote => h (hquote ▸ hc)
  have hskip : (before.toList ++ literal text.toList ++ after.toList).dropWhile (· ≠ '\'') =
      literal text.toList ++ after.toList := by
    rw [List.append_assoc, List.dropWhile_append_of_pos hbefore]
    rfl
  rw [firstLiteral?, String.toList_append, String.toList_append, literalOf, String.toList_ofList,
    hskip, readLiteral?_literal, Option.map_some]
  exact congrArg some String.ofList_toList

theorem firstLine_append {line : String} (h : ∀ c ∈ line.toList, isLineTerminator c = false)
    (after : String) : firstLine (line ++ "\n" ++ after) = line := by
  have hline : ∀ c ∈ line.toList, (!isLineTerminator c) = true := fun c hc => by rw [h c hc]; rfl
  have hbreak : (line ++ "\n" ++ after).toList = line.toList ++ '\n' :: after.toList := by
    rw [String.toList_append, String.toList_append, toList_newline, List.append_assoc]
    rfl
  rw [firstLine, hbreak, List.takeWhile_append_of_pos hline, List.takeWhile_cons_of_neg (by decide),
    List.append_nil, String.ofList_toList]

/-! ## Pipe modules -/

def sourceLine (source : String) : String := "// source: " ++ literalOf source

theorem isLineTerminator_sourceLine (source : String) :
    ∀ c ∈ (sourceLine source).toList, isLineTerminator c = false := by
  have hslashes : ∀ c ∈ ("// source: " : String).toList, isLineTerminator c = false := by
    rewrite [String.toList_ofList]
    exact isLineTerminator_of_any (by decide)
  have hliteral : ∀ c ∈ (literalOf source).toList, isLineTerminator c = false := by
    rw [literalOf, String.toList_ofList]
    exact isLineTerminator_literal source.toList
  rw [sourceLine, String.toList_append, List.forall_mem_append]
  exact ⟨hslashes, hliteral⟩

/-- A definition begins with the whole line of its source. -/
@[simp]
theorem firstLine_pipeDefinition (pipe : PipeModule) (after : String) :
    firstLine (pipeDefinition pipe ++ after) = sourceLine pipe.source := by
  have hbreak : "\nconst " = "\n" ++ "const " := rfl
  have hdefinition : pipeDefinition pipe ++ after = sourceLine pipe.source ++ "\n" ++
      ("const " ++ pipe.name ++ " = " ++ pipe.code ++ ";\n\n" ++ after) := by
    delta pipeDefinition sourceLine
    rewrite [hbreak]
    simp only [String.append_assoc]
  rw [hdefinition, firstLine_append (isLineTerminator_sourceLine pipe.source)]

@[simp]
theorem firstLiteral?_pipeDefinition (pipe : PipeModule) (after : String) :
    firstLiteral? (pipeDefinition pipe ++ after) = some pipe.source := by
  have hslashes : '\'' ∉ ("// source: " : String).toList := by
    rewrite [String.toList_ofList]
    decide
  delta pipeDefinition
  simp only [String.append_assoc]
  rewrite [← String.append_assoc]
  exact firstLiteral?_append hslashes pipe.source _

/-- Where the definitions of some pipe modules end, the source of the next one is read. -/
theorem exists_source_of_pipes (before : List PipeModule) (pipe : PipeModule)
    (after : List PipeModule) (names : List String) :
    ∃ rest, Writers.PipeModules.header ++
        String.join ((before ++ pipe :: after).map pipeDefinition) ++ pipeExports names =
          Writers.PipeModules.header ++ String.join (before.map pipeDefinition) ++ rest ∧
      firstLiteral? rest = some pipe.source := by
  refine ⟨pipeDefinition pipe ++ (String.join (after.map pipeDefinition) ++ pipeExports names), ?_,
    firstLiteral?_pipeDefinition pipe _⟩
  rw [List.map_append, List.map_cons, String.join_append, String.join_cons]
  simp only [String.append_assoc]

/-! ## Routes -/

/-- The path of a route is read back from the line that registers its handler. -/
@[simp]
theorem firstLiteral?_registration (route : Route) :
    firstLiteral? (registration route) = some route.path := by
  have hverb : '\'' ∉ ("router." ++ route.method.name ++ "(").toList := by
    cases route.method <;> decide
  exact firstLiteral?_append hverb route.path _

/-- The paths of the routes are read back from their module. -/
theorem routePaths_routes {bindings : List RouteBinding}
    (h : ∀ binding ∈ bindings,
      isIdentifier binding.query ∧ ∀ name ∈ binding.pipes, isIdentifier name)
    (routes : List Route) :
    routePaths (Writers.Routes.header ++ String.join (bindings.map handler) ++
      routeExports routes) = bindings.map (·.route.path) := by
  have hread : ∀ binding : RouteBinding,
      firstLiteral? (registration binding.route) = some binding.route.path :=
    fun binding => firstLiteral?_registration binding.route
  rw [routePaths, registrations_routes h, List.filterMap_map]
  exact List.filterMap_eq_map_iff_forall_eq_some.mpr fun binding _ => hread binding

/-! ## Queries -/

theorem queryTexts_append {before : String} (h : AtLineStart before) (after : String) :
    queryTexts (before ++ after) = queryTexts before ++ queryTexts after := by
  rw [queryTexts, lines_append h, List.filterMap_append]
  rfl

theorem queryTexts_of_eq {text : String} {texts : List String} (h : text = unlines texts)
    (hlines : ∀ line ∈ texts, '\n' ∉ line.toList) :
    queryTexts text = texts.filterMap queryText? := by
  rw [queryTexts, h, lines_unlines hlines]

/-- A line with another beginning has no text of a query. -/
theorem queryText?_of_beginning {line : String} (h : beginning line ≠ queryField.take 5) :
    queryText? line = none := by
  refine if_neg fun hline => h ?_
  rw [← hline, beginning, List.take_take]
  rfl

theorem queryText?_append {first : String} {cs : List Char} (h : first.toList = cs)
    (hlength : 5 ≤ cs.length) (hother : cs.take 5 ≠ queryField.take 5) (rest : String) :
    queryText? (first ++ rest) = none := by
  apply queryText?_of_beginning
  rwa [beginning_append h hlength]

/-- The text of a query is read back from its line. -/
@[simp]
theorem queryText?_literal (text : String) :
    queryText? ("  query: " ++ literalOf text ++ ",") = some text := by
  have hfield : ("  query: " : String).toList = queryField := String.toList_ofList
  have hline : ("  query: " ++ literalOf text ++ ",").toList.take 9 = queryField := by
    rw [String.append_assoc, String.toList_append, hfield]
    rfl
  rw [queryText?, if_pos hline]
  exact firstLiteral?_append (hfield ▸ by decide) text ","

theorem queryTexts_queryDefinition {query : Query} (h : isIdentifier query.name) :
    queryTexts (queryDefinition query) = [query.text] := by
  have hfirst : queryText? ("const " ++ query.name ++ " = \x7b") = none := by
    rw [String.append_assoc]
    exact queryText?_append String.toList_ofList (by decide) (by decide) _
  have hcontext : queryText? ("  context: " ++ query.context.compress ++ ",") = none := by
    rw [String.append_assoc]
    exact queryText?_append String.toList_ofList (by decide) (by decide) _
  have hlast : ["\x7d;", ""].filterMap queryText? = [] := by decide +kernel
  rw [queryTexts_of_eq (queryDefinition_eq_unlines query) (newline_not_mem_queryDefinitionLines h),
    queryDefinitionLines, List.filterMap_cons_none hfirst,
    List.filterMap_cons_some (queryText?_literal query.text), List.filterMap_cons_none hcontext, hlast]

theorem queryTexts_queryDefinitions {queries : List Query}
    (h : ∀ query ∈ queries, isIdentifier query.name) :
    queryTexts (String.join (queries.map queryDefinition)) = queries.map (·.text) :=
  filterMap_lines_join endsLine_queryDefinition fun query hquery =>
    queryTexts_queryDefinition (h query hquery)

@[simp]
theorem queryTexts_queryHeader (sources : List DataSource) :
    queryTexts (queryHeader sources) = [] := by
  have hsources : queryText? ("  sources: " ++
      (Json.arr (sources.map DataSource.toJson)).compress ++ ",") = none := by
    rw [String.append_assoc]
    exact queryText?_append String.toList_ofList (by decide) (by decide) _
  have hopening : openingLines.filterMap queryText? = [] := by decide +kernel
  have hclosing : closingLines.filterMap queryText? = [] := by decide +kernel
  rw [queryTexts_of_eq (queryHeader_eq_unlines sources) (newline_not_mem_queryHeaderLines sources),
    queryHeaderLines, List.filterMap_append, List.filterMap_cons_none hsources, hopening, hclosing]
  rfl

theorem queryTexts_queryExports {names : List String} (h : ∀ name ∈ names, isIdentifier name) :
    queryTexts (queryExports names) = [] := by
  have hline : queryExports names = unlines [exportLine ("executeQuery" :: names)] := by
    rewrite [unlines_singleton]
    exact queryExports_eq names
  have hnone : queryText? (exportLine ("executeQuery" :: names)) = none := by
    delta exportLine
    rewrite [String.append_assoc]
    exact queryText?_append String.toList_ofList (by decide) (by decide) _
  have hbreaks := newline_not_mem_exportLine (isIdentifier_queryExports h)
  rw [queryTexts_of_eq hline (by simpa using hbreaks), List.filterMap_cons_none hnone]
  rfl

/-- The texts of the queries are read back from their module. -/
theorem queryTexts_queries {queries : List Query} (sources : List DataSource)
    (h : ∀ query ∈ queries, isIdentifier query.name) :
    queryTexts (queryHeader sources ++ String.join (queries.map queryDefinition) ++
      queryExports (queries.map (·.name))) = queries.map (·.text) := by
  have hheader : AtLineStart (queryHeader sources) := .inr (endsLine_queryHeader sources)
  rw [queryTexts_append (atLineStart_queries sources queries), queryTexts_append hheader,
    queryTexts_queryHeader, queryTexts_queryDefinitions h,
    queryTexts_queryExports (by simpa using h), List.append_nil, List.nil_append]

end Generated

end LinkedApi
