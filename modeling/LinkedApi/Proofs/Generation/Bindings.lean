import LinkedApi.Proofs.Generation.Lines

/-!
# Names in the generated modules

What a module declares at its top level stands at the beginnings of lines, and what it exports
stands in its last line. Both can be read off the text of the module of the queries. The code of a
pipe module may have any lines, so that in the other module only the exports are read.
-/

namespace LinkedApi

open Text

namespace Text

def words (line : String) : List String := (splitAt ' ' line.toList).map String.ofList

/-- The identifier that a text begins with. -/
def identifierOf (text : String) : String :=
  String.ofList (text.toList.takeWhile isIdentifierChar)

theorem words_append {first : String} (h : ' ' ∉ first.toList) (rest : String) :
    words (first ++ " " ++ rest) = first :: words rest := by
  have hblank : (" " : String).toList = [' '] := rfl
  simp only [words, String.toList_append, hblank, List.append_assoc, List.singleton_append,
    splitAt_append, splitAt_of_not_mem h, List.map_cons, String.ofList_toList]

theorem words_of_not_mem {word : String} (h : ' ' ∉ word.toList) : words word = [word] := by
  rw [words, splitAt_of_not_mem h, List.map_singleton, String.ofList_toList]

/-- An identifier ends where a character follows that cannot stand in one. -/
theorem identifierOf_append {name : String} (h : isIdentifier name) {rest : String} {cs : List Char}
    (hrest : rest.toList = cs) (hstop : cs.takeWhile isIdentifierChar = []) :
    identifierOf (name ++ rest) = name := by
  have hname : ∀ c ∈ name.toList, isIdentifierChar c = true := fun _ => isIdentifierChar_of_mem h
  rw [identifierOf, String.toList_append, hrest, List.takeWhile_append_of_pos hname, hstop,
    List.append_nil, String.ofList_toList]

theorem identifierOf_identifier {name : String} (h : isIdentifier name) :
    identifierOf name = name := by
  have hnothing : ("" : String).toList = [] := rfl
  have happend := identifierOf_append h hnothing rfl
  rwa [String.append_empty] at happend

theorem blank_not_mem_identifier {name : String} (h : isIdentifier name) : ' ' ∉ name.toList :=
  fun hmem => absurd (isIdentifierChar_of_mem h hmem) (by decide)

end Text

namespace Generated

/-! ## Reading -/

/-- The name that a line declares; what stands in a block is indented and not read. -/
def declaredName? (line : String) : Option String :=
  match words line with
  | "const" :: "\x7b" :: name :: _ => some (identifierOf name)
  | "const" :: name :: _ => some (identifierOf name)
  | "async" :: "function" :: name :: _ => some (identifierOf name)
  | _ => none

def declaredNames (text : String) : List String := (lines text).filterMap declaredName?

/-- The names that a line exports, in their order. -/
def exportsOf (line : String) : List String :=
  match words line with
  | "module.exports" :: "=" :: "\x7b" :: names => names.dropLast.map identifierOf
  | _ => []

def exportedNames (text : String) : List String := (lines text).getLast?.elim [] exportsOf

theorem declaredNames_append {before : String} (h : AtLineStart before) (after : String) :
    declaredNames (before ++ after) = declaredNames before ++ declaredNames after := by
  rw [declaredNames, lines_append h, List.filterMap_append]
  rfl

theorem declaredNames_of_eq {text : String} {texts : List String} (h : text = unlines texts)
    (hlines : ∀ line ∈ texts, '\n' ∉ line.toList) :
    declaredNames text = texts.filterMap declaredName? := by
  rw [declaredNames, h, lines_unlines hlines]

@[simp]
theorem declaredName?_indented (rest : String) : declaredName? (" " ++ rest) = none := by
  have hempty : ' ' ∉ ("" : String).toList := List.not_mem_nil
  have hwords := words_append hempty rest
  rw [String.empty_append] at hwords
  rw [declaredName?, hwords]
  rfl

/-- A line with a constant declares its name. -/
theorem declaredName?_const {name : String} (h : isIdentifier name) :
    declaredName? ("const " ++ name ++ " = \x7b") = some name := by
  have hline : "const " ++ name ++ " = \x7b" = "const" ++ " " ++ (name ++ " " ++ "= \x7b") := by
    have hfirst : "const " = "const" ++ " " := rfl
    have hlast : " = \x7b" = " " ++ "= \x7b" := rfl
    rw [hfirst, hlast]
    simp only [String.append_assoc]
  have hwords : words ("const " ++ name ++ " = \x7b") = ["const", name, "=", "\x7b"] := by
    rw [hline, words_append (by decide), words_append (blank_not_mem_identifier h)]
    rfl
  unfold declaredName?
  rw [hwords]
  split
  · next heq =>
    -- a brace is no identifier
    cases heq
    exact absurd h (by decide)
  · next heq =>
    cases heq
    exact congrArg some (identifierOf_identifier h)
  · next heq => exact absurd (List.cons.inj heq).1 (by decide)
  · next _ hnone _ => exact (hnone _ _ rfl).elim

/-! ## Queries -/

def queryDefinitionLines (query : Query) : List String :=
  ["const " ++ query.name ++ " = \x7b", "  query: " ++ literalOf query.text ++ ",",
    "  context: " ++ query.context.compress ++ ",", "\x7d;", ""]

theorem queryDefinition_eq_unlines (query : Query) :
    queryDefinition query = unlines (queryDefinitionLines query) := by
  have hopen : " = \x7b\n  query: " = " = \x7b" ++ ("\n" ++ "  query: ") := rfl
  have hbetween : ",\n  context: " = "," ++ ("\n" ++ "  context: ") := rfl
  have hclose : ",\n\x7d;\n\n" = "," ++ ("\n" ++ ("\x7d;" ++ ("\n" ++ "\n"))) := rfl
  delta queryDefinition queryDefinitionLines
  rewrite [hopen, hbetween, hclose]
  delta unlines
  simp only [List.map_cons, List.map_nil, String.join_cons, String.join_nil, String.append_assoc,
    String.append_empty, String.empty_append]

theorem newline_not_mem_queryDefinitionLines {query : Query} (h : isIdentifier query.name) :
    ∀ line ∈ queryDefinitionLines query, '\n' ∉ line.toList := by
  simp only [queryDefinitionLines, List.forall_mem_cons, List.not_mem_nil, false_implies,
    implies_true, and_true]
  refine ⟨?_, ?_, ?_, ?_, ?_⟩
  · exact newline_not_mem_surrounded String.toList_ofList String.toList_ofList (by decide)
      (newline_not_mem_identifier h)
  · exact newline_not_mem_surrounded String.toList_ofList String.toList_ofList (by decide)
      (newline_not_mem_literalOf query.text)
  · exact newline_not_mem_surrounded String.toList_ofList String.toList_ofList (by decide)
      (Json.newline_not_mem_compress _)
  · decide
  · decide

theorem declaredNames_queryDefinition {query : Query} (h : isIdentifier query.name) :
    declaredNames (queryDefinition query) = [query.name] := by
  have htext : "  query: " = " " ++ " query: " := rfl
  have hcontext : "  context: " = " " ++ " context: " := rfl
  rw [declaredNames_of_eq (queryDefinition_eq_unlines query)
    (newline_not_mem_queryDefinitionLines h), queryDefinitionLines, htext, hcontext]
  simp only [String.append_assoc, List.filterMap_cons, declaredName?_indented]
  rw [← String.append_assoc, declaredName?_const h]
  rfl

/-- The definitions of queries declare the names of the queries. -/
theorem declaredNames_queryDefinitions {queries : List Query}
    (h : ∀ query ∈ queries, isIdentifier query.name) :
    declaredNames (String.join (queries.map queryDefinition)) = queries.map (·.name) :=
  filterMap_lines_join endsLine_queryDefinition fun query hquery =>
    declaredNames_queryDefinition (h query hquery)

def openingLines : List String :=
  ["const \x7b Client \x7d = require('graphql-ld');",
    "const \x7b QueryEngineComunica \x7d = require('graphql-ld-comunica');",
    "",
    "const comunicaConfig = \x7b"]

def closingLines : List String :=
  ["\x7d;",
    "",
    "async function executeQuery(definition, variables) \x7b",
    "  const client = new Client(\x7b",
    "    context: definition.context,",
    "    queryEngine: new QueryEngineComunica(comunicaConfig),",
    "  \x7d);",
    "  const \x7b data \x7d = await client.query(\x7b query: definition.query, variables \x7d);",
    "  return data;",
    "\x7d",
    ""]

def queryHeaderLines (sources : List DataSource) : List String :=
  openingLines ++
    ("  sources: " ++ (Json.arr (sources.map DataSource.toJson)).compress ++ ",") :: closingLines

set_option maxRecDepth 4096 in
theorem queryHeader_eq_unlines (sources : List DataSource) :
    queryHeader sources = unlines (queryHeaderLines sources) := by
  have hopen : "const \x7b Client \x7d = require('graphql-ld');
const \x7b QueryEngineComunica \x7d = require('graphql-ld-comunica');

const comunicaConfig = \x7b
  sources: " = unlines openingLines ++ "  sources: " := by
    delta unlines openingLines
    rewrite [← String.toList_inj, String.toList_append, String.toList_join]
    simp only [List.map_cons, List.map_nil, List.flatMap_cons, List.flatMap_nil]
    repeat rewrite [String.toList_append]
    repeat rewrite [String.toList_ofList]
    decide
  have hclose : ",
\x7d;

async function executeQuery(definition, variables) \x7b
  const client = new Client(\x7b
    context: definition.context,
    queryEngine: new QueryEngineComunica(comunicaConfig),
  \x7d);
  const \x7b data \x7d = await client.query(\x7b query: definition.query, variables \x7d);
  return data;
\x7d

" = "," ++ "\n" ++ unlines closingLines := by
    delta unlines closingLines
    rewrite [← String.toList_inj, String.toList_append, String.toList_join]
    simp only [List.map_cons, List.map_nil, List.flatMap_cons, List.flatMap_nil]
    repeat rewrite [String.toList_append]
    repeat rewrite [String.toList_ofList]
    decide
  delta queryHeader queryHeaderLines
  rewrite [unlines_append, unlines_cons, hopen, hclose]
  simp only [String.append_assoc]

theorem newline_not_mem_queryHeaderLines (sources : List DataSource) :
    ∀ line ∈ queryHeaderLines sources, '\n' ∉ line.toList := by
  have hsources : '\n' ∉ ("  sources: " ++ (Json.arr (sources.map DataSource.toJson)).compress ++
      ",").toList :=
    newline_not_mem_surrounded String.toList_ofList String.toList_ofList (by decide)
      (Json.newline_not_mem_compress _)
  have hopening : ∀ line ∈ openingLines, '\n' ∉ line.toList := by decide +kernel
  have hclosing : ∀ line ∈ closingLines, '\n' ∉ line.toList := by decide +kernel
  rw [queryHeaderLines, List.forall_mem_append, List.forall_mem_cons]
  exact ⟨hopening, hsources, hclosing⟩

def headerNames : List String :=
  ["Client", "QueryEngineComunica", "comunicaConfig", "executeQuery"]

@[simp]
theorem declaredNames_queryHeader (sources : List DataSource) :
    declaredNames (queryHeader sources) = headerNames := by
  have hsources : "  sources: " = " " ++ " sources: " := rfl
  have hopening : openingLines.filterMap declaredName? =
      ["Client", "QueryEngineComunica", "comunicaConfig"] := by decide +kernel
  have hclosing : closingLines.filterMap declaredName? = ["executeQuery"] := by decide +kernel
  rw [declaredNames_of_eq (queryHeader_eq_unlines sources)
    (newline_not_mem_queryHeaderLines sources), queryHeaderLines, List.filterMap_append, hsources,
    String.append_assoc, String.append_assoc, List.filterMap_cons_none (declaredName?_indented _),
    hopening, hclosing]
  rfl

/-! ## Exports -/

def listed : List String → List String
  | [] => []
  | [name] => [name]
  | name :: rest => (name ++ ",") :: listed rest

def exportLine (names : List String) : String :=
  "module.exports = \x7b " ++ ", ".intercalate names ++ " \x7d;"

theorem words_intercalate {names : List String} (hne : names ≠ [])
    (h : ∀ name ∈ names, isIdentifier name) (last : String) :
    words (", ".intercalate names ++ " " ++ last) = listed names ++ words last := by
  induction names with
  | nil => exact absurd rfl hne
  | cons name rest ih =>
    rw [List.forall_mem_cons] at h
    have hname := blank_not_mem_identifier h.1
    cases rest with
    | nil =>
      rw [String.intercalate_singleton, words_append hname]
      rfl
    | cons next rest =>
      have hcomma : ' ' ∉ (name ++ ",").toList := by
        rw [String.toList_append, List.mem_append]
        exact fun hmem => hmem.elim hname (by decide)
      have hseparator : ", " = "," ++ " " := rfl
      have hline : ", ".intercalate (name :: next :: rest) ++ " " ++ last =
          name ++ "," ++ " " ++ (", ".intercalate (next :: rest) ++ " " ++ last) := by
        rw [String.intercalate_cons_cons]
        simp only [hseparator, String.append_assoc]
      rw [hline, words_append hcomma, ih (List.cons_ne_nil next rest) h.2]
      rfl

theorem identifierOf_listed {names : List String} (h : ∀ name ∈ names, isIdentifier name) :
    (listed names).map identifierOf = names := by
  induction names with
  | nil => rfl
  | cons name rest ih =>
    rw [List.forall_mem_cons] at h
    cases rest with
    | nil => exact congrArg (fun found => [found]) (identifierOf_identifier h.1)
    | cons next rest =>
      have hcomma : ("," : String).toList = [','] := rfl
      rw [listed, List.map_cons, identifierOf_append h.1 hcomma rfl, ih h.2]
      simp

theorem newline_not_mem_intercalate {names : List String} (h : ∀ name ∈ names, isIdentifier name) :
    '\n' ∉ (", ".intercalate names).toList := by
  induction names with
  | nil => exact List.not_mem_nil
  | cons name rest ih =>
    rw [List.forall_mem_cons] at h
    have hname := newline_not_mem_identifier h.1
    cases rest with
    | nil => rwa [String.intercalate_singleton]
    | cons next rest =>
      rw [String.intercalate_cons_cons, String.toList_append, String.toList_append, List.mem_append,
        List.mem_append]
      exact fun hmem => hmem.elim (fun hfirst => hfirst.elim hname (by decide)) (ih h.2)

theorem words_exportLine {names : List String} (hne : names ≠ [])
    (h : ∀ name ∈ names, isIdentifier name) :
    words (exportLine names) =
      "module.exports" :: "=" :: "\x7b" :: (listed names ++ ["\x7d;"]) := by
  have hfirst : "module.exports = \x7b " =
      "module.exports" ++ " " ++ ("=" ++ " " ++ ("\x7b" ++ " ")) := rfl
  have hlast : " \x7d;" = " " ++ "\x7d;" := rfl
  have hline : exportLine names =
      "module.exports" ++ " " ++ ("=" ++ " " ++ ("\x7b" ++ " " ++
        (", ".intercalate names ++ " " ++ "\x7d;"))) := by
    delta exportLine
    rewrite [hfirst, hlast]
    simp only [String.append_assoc]
  rewrite [hline, words_append (by decide), words_append (by decide), words_append (by decide),
    words_intercalate hne h, words_of_not_mem (by decide)]
  rfl

theorem newline_not_mem_exportLine {names : List String} (h : ∀ name ∈ names, isIdentifier name) :
    '\n' ∉ (exportLine names).toList :=
  newline_not_mem_surrounded String.toList_ofList String.toList_ofList (by decide)
    (newline_not_mem_intercalate h)

/-- An export line exports the names that it was made of. -/
theorem exportsOf_exportLine {names : List String} (hne : names ≠ [])
    (h : ∀ name ∈ names, isIdentifier name) : exportsOf (exportLine names) = names := by
  rewrite [exportsOf, words_exportLine hne h]
  simp only [List.dropLast_concat]
  exact identifierOf_listed h

theorem exportedNames_of_line {before line : String} (hbefore : AtLineStart before)
    (hline : '\n' ∉ line.toList) : exportedNames (before ++ (line ++ "\n")) = exportsOf line := by
  rewrite [exportedNames, lines_append hbefore, ← unlines_singleton,
    lines_unlines (by simpa using hline), List.getLast?_append, List.getLast?_singleton]
  rfl

theorem queryExports_eq (names : List String) :
    queryExports names = exportLine ("executeQuery" :: names) ++ "\n" := by
  have hclose : " \x7d;\n" = " \x7d;" ++ "\n" := rfl
  delta queryExports exportLine
  rewrite [hclose, ← String.append_assoc]
  rfl

theorem pipeExports_eq {names : List String} (hne : names ≠ []) :
    pipeExports names = exportLine names ++ "\n" := by
  have hclose : " \x7d;\n" = " \x7d;" ++ "\n" := rfl
  delta pipeExports exportLine
  rewrite [if_neg (by simpa using hne), hclose, ← String.append_assoc]
  rfl

theorem isIdentifier_queryExports {names : List String} (h : ∀ name ∈ names, isIdentifier name) :
    ∀ name ∈ "executeQuery" :: names, isIdentifier name :=
  List.forall_mem_cons.mpr ⟨by decide +kernel, h⟩

theorem declaredNames_queryExports {names : List String} (h : ∀ name ∈ names, isIdentifier name) :
    declaredNames (queryExports names) = [] := by
  have hidentifiers := isIdentifier_queryExports h
  have hnone : declaredName? (exportLine ("executeQuery" :: names)) = none := by
    rewrite [declaredName?, words_exportLine (List.cons_ne_nil _ _) hidentifiers]
    rfl
  have hline : queryExports names = unlines [exportLine ("executeQuery" :: names)] := by
    rewrite [unlines_singleton]
    exact queryExports_eq names
  rewrite [declaredNames_of_eq hline (by simpa using newline_not_mem_exportLine hidentifiers),
    List.filterMap_cons_none hnone]
  rfl

/-! ## Modules -/

section Modules

variable {queries : List Query} {pipes : List PipeModule}

theorem atLineStart_queries (sources : List DataSource) (queries : List Query) :
    AtLineStart (queryHeader sources ++ String.join (queries.map queryDefinition)) :=
  AtLineStart.append (.inr (endsLine_queryHeader sources))
    (.join (by simpa using fun query _ => endsLine_queryDefinition query))

/-- The module of the queries declares what its header declares, and then each query. -/
theorem declaredNames_queries (sources : List DataSource)
    (h : ∀ query ∈ queries, isIdentifier query.name) :
    declaredNames (queryHeader sources ++ String.join (queries.map queryDefinition) ++
      queryExports (queries.map (·.name))) = headerNames ++ queries.map (·.name) := by
  have hheader : AtLineStart (queryHeader sources) := .inr (endsLine_queryHeader sources)
  rw [declaredNames_append (atLineStart_queries sources queries), declaredNames_append hheader,
    declaredNames_queryHeader, declaredNames_queryDefinitions h,
    declaredNames_queryExports (by simpa using h), List.append_nil]

theorem exportedNames_queries (sources : List DataSource)
    (h : ∀ query ∈ queries, isIdentifier query.name) :
    exportedNames (queryHeader sources ++ String.join (queries.map queryDefinition) ++
      queryExports (queries.map (·.name))) = "executeQuery" :: queries.map (·.name) := by
  have hbefore := atLineStart_queries sources queries
  have hnames := isIdentifier_queryExports (List.forall_mem_map.mpr h)
  rw [queryExports_eq, exportedNames_of_line hbefore (newline_not_mem_exportLine hnames)]
  exact exportsOf_exportLine (List.cons_ne_nil _ _) hnames

/-- The module of the pipe modules exports the pipe modules. -/
theorem exportedNames_pipes (h : ∀ pipe ∈ pipes, isIdentifier pipe.name) :
    exportedNames (Writers.PipeModules.header ++ String.join (pipes.map pipeDefinition) ++
      pipeExports (pipes.map (·.name))) = pipes.map (·.name) := by
  have hbefore :
      AtLineStart (Writers.PipeModules.header ++ String.join (pipes.map pipeDefinition)) :=
    AtLineStart.append (.inr endsLine_pipeHeader)
      (.join (by simpa using fun pipe _ => endsLine_pipeDefinition pipe))
  have hnames : ∀ name ∈ pipes.map (·.name), isIdentifier name := List.forall_mem_map.mpr h
  by_cases hnone : pipes.map (·.name) = []
  · have hline : pipeExports [] = "module.exports = \x7b\x7d;" ++ "\n" := rfl
    rewrite [hnone, hline, exportedNames_of_line hbefore (by decide)]
    decide +kernel
  · rw [pipeExports_eq hnone, exportedNames_of_line hbefore (newline_not_mem_exportLine hnames)]
    exact exportsOf_exportLine hnone hnames

end Modules

end Generated

end LinkedApi
