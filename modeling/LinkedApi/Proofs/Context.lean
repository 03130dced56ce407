import LinkedApi.Proofs.Json.Parser
import LinkedApi.Proofs.Validation

/-!
# Declared contexts

A context is declared as a JSON text or as a mapping. One object gives one query in both forms, in
whatever way the text spells it. Whether a text spells an object is never asked, however: a text of
any other value is a context too, though a node that is no mapping is refused in its place.
-/

namespace LinkedApi

open Outcome

def Json.IsObject (j : Json) : Prop := ∃ fields, j = .obj fields

/-! ## JSON values as YAML values -/

namespace Yaml

mutual

/-- The YAML value equal to a JSON value, whose keys are plain strings. -/
def ofJson : Json → Yaml
  | .null => .null
  | .bool b => .bool b
  | .int n => .int n
  | .float x => .float x
  | .str s => .str s
  | .arr items => .seq (ofJsonItems items)
  | .obj fields => .map (ofJsonFields fields)

def ofJsonItems : List Json → List Yaml
  | [] => []
  | item :: rest => ofJson item :: ofJsonItems rest

def ofJsonFields : List (String × Json) → List (Yaml × Yaml)
  | [] => []
  | (key, value) :: rest => (.str key, ofJson value) :: ofJsonFields rest

end

mutual

/-- A value without repeated keys comes back with its keys in their order. -/
theorem toJson_ofJson : ∀ {j : Json}, j.IsExact → (ofJson j).toJson = .ok j
  | .null, _ => rfl
  | .bool _, _ => rfl
  | .int _, _ => rfl
  | .float _, h => h.elim
  | .str _, _ => rfl
  | .arr _, h => by
    rw [ofJson, toJson, toJsonItems_ofJsonItems h]
    rfl
  | .obj _, h => by
    rw [ofJson, toJson, toJsonFields_ofJsonFields h.2]
    exact congrArg (Except.ok ∘ Json.obj) (Json.setFields_of_nodup h.1)

theorem toJsonItems_ofJsonItems :
    ∀ {items : List Json}, Json.AreExact items → toJsonItems (ofJsonItems items) = .ok items
  | [], _ => rfl
  | _ :: _, h => by
    rw [ofJsonItems, toJsonItems, toJson_ofJson h.1, toJsonItems_ofJsonItems h.2]
    rfl

theorem toJsonFields_ofJsonFields : ∀ {fields : List (String × Json)},
    Json.HasExactFields fields → toJsonFields (ofJsonFields fields) = .ok fields
  | [], _ => rfl
  | (_, _) :: _, h => by
    rw [ofJsonFields, toJsonFields, jsonKey, toJson_ofJson h.1, toJsonFields_ofJsonFields h.2]
    rfl

end

/-- A mapping that has a JSON form has that of an object. -/
theorem toJson_map_ok {entries : List (Yaml × Yaml)} {j : Json}
    (h : (Yaml.map entries).toJson = .ok j) : j.IsObject := by
  rw [toJson] at h
  obtain ⟨fields, -, h⟩ := bind_eq_ok.mp h
  exact ⟨_, (pure_eq_ok.mp h).symm⟩

def isContextKind : Yaml → Bool
  | .null => true
  | .str _ => true
  | .map _ => true
  | _ => false

end Yaml

def Query.withContext (context : Json) (query : Query) : Query := { query with context }

/-- Whether an operation declares what another one declares, and a context, of which the other has
none. -/
structure DeclaresContext (op bare : Operation) (context : Yaml) : Prop where
  method : op.method = bare.method
  path : op.path = bare.path
  blocks : ∃ block bareBlock, op.node.get? "query" = some (.map block) ∧
    bare.node.get? "query" = some (.map bareBlock) ∧
    Yaml.lookup? block "graphql-query" = Yaml.lookup? bareBlock "graphql-query" ∧
    Yaml.lookup? block "json-ld-context" = some context ∧
    Yaml.lookup? bareBlock "json-ld-context" = none

namespace Operation

variable {op bare : Operation} {context : Yaml} {query : Query} {block : List (Yaml × Yaml)}

/-! ## What is read from a block -/

def named (op : Operation) (route : Route) (text : String) (context : Json) :
    Except ExtractError Query :=
  if Text.isIdentifier (Query.nameOf route.method op.path) then
    .ok ⟨Query.nameOf route.method op.path, String.ofList (Text.singleLine text.toList), context⟩
  else .error (.invalidIdentifier (Query.nameOf route.method op.path) op.method op.path)

theorem query_of_block (h : op.node.get? "query" = some (.map block)) :
    op.query = (do
      let route ← op.route
      let text ← op.queryText block
      let context ← op.queryContext block
      op.named route text context) := by
  rw [Operation.query, h]
  rfl

/-- The context plays no role in whether a query has its name and its text. -/
theorem named_withContext (route : Route) (text : String) (before after : Json) :
    op.named route text after = Query.withContext after <$> op.named route text before := by
  unfold named
  split_ifs <;> rfl

/-- A context that is written as a text is parsed, and must be JSON. -/
theorem queryContext_text {text : String}
    (h : Yaml.lookup? block "json-ld-context" = some (.str text)) :
    op.queryContext block =
      match Json.parse? text with
      | some context => .ok context
      | none => .error (op.invalidContext .notJson) := by
  cases hparse : Json.parse? text <;> simp only [queryContext, h, hparse]

/-- A context that is written as a mapping is the object that the mapping stands for. -/
theorem queryContext_ofJson {fields : List (String × Json)} (hexact : (Json.obj fields).IsExact)
    (h : Yaml.lookup? block "json-ld-context" = some (Yaml.ofJson (.obj fields))) :
    op.queryContext block = .ok (.obj fields) := by
  have hread := Yaml.toJson_ofJson hexact
  rw [Yaml.ofJson] at h hread
  rw [queryContext, h]
  simp only [hread]

theorem queryContext_refused (hkind : context.isContextKind = false)
    (h : Yaml.lookup? block "json-ld-context" = some context) :
    op.queryContext block = .error (op.invalidContext (.notContext context.kind)) := by
  rw [queryContext, h]
  cases context <;> first | rfl | cases hkind

/-- Only a text can give a context that is no object. -/
theorem text_of_queryContext {value : Json} (h : op.queryContext block = .ok value)
    (hvalue : ¬value.IsObject) :
    ∃ text, Yaml.lookup? block "json-ld-context" = some (.str text) ∧
      Json.parse? text = some value := by
  unfold queryContext at h
  split at h
  · exact absurd ⟨[], (Except.ok.inj h).symm⟩ hvalue
  · exact absurd ⟨[], (Except.ok.inj h).symm⟩ hvalue
  · next text htext =>
    split at h
    · next context hcontext =>
      rw [Except.ok.inj h] at hcontext
      exact ⟨text, htext, hcontext⟩
    · cases h
  · split at h
    · next context hcontext => exact absurd (Except.ok.inj h ▸ Yaml.toJson_map_ok hcontext) hvalue
    · cases h
  · cases h

/-! ## What is read from an operation -/

/-- An operation has the query of the one without a context, but for the context. What is refused in
one is refused in the other. -/
theorem query_withContext {value : Json} (h : DeclaresContext op bare context)
    (hread : ∀ block, Yaml.lookup? block "json-ld-context" = some context →
      op.queryContext block = .ok value) :
    op.query = Query.withContext value <$> bare.query := by
  obtain ⟨block, bareBlock, hblock, hbareBlock, htext, hcontext, hnone⟩ := h.blocks
  have hroute : op.route = bare.route := by rw [route, route, h.method, h.path]
  have htexts : op.queryText block = bare.queryText bareBlock := by
    simp only [queryText, malformed, htext, h.method, h.path]
  have hbare : bare.queryContext bareBlock = .ok (.obj []) := by rw [queryContext, hnone]
  have hnamed : op.named = bare.named := by
    funext
    simp only [named, h.method, h.path]
  rw [query_of_block hblock, query_of_block hbareBlock, hread block hcontext, hbare, hroute, htexts,
    hnamed]
  have hafter := @named_withContext bare
  -- how the name is checked plays no part in what is left
  generalize bare.named = named at hafter ⊢
  cases bare.route with
  | error _ => rfl
  | ok route =>
    cases bare.queryText bareBlock with
    | error _ => rfl
    | ok text => exact hafter route text (.obj []) value

/-- A context that is refused is all that is wrong with an operation. -/
theorem query_error_of_context {problem : ExtractError} (h : DeclaresContext op bare context)
    (hread : ∀ block, Yaml.lookup? block "json-ld-context" = some context →
      op.queryContext block = .error problem) (hbare : bare.query = .ok query) :
    op.query = .error problem := by
  obtain ⟨block, bareBlock, hblock, hbareBlock, htext, hcontext, -⟩ := h.blocks
  obtain ⟨route, _, text, hroute, hsame, hlookup, -⟩ := query_ok hbare
  rw [hbareBlock] at hsame
  obtain rfl := Yaml.map.inj (Option.some.inj hsame)
  have hopRoute : op.route = .ok route := by
    rw [← hroute, Operation.route, Operation.route, h.method, h.path]
  have hopText : op.queryText block = .ok text := by rw [queryText, htext, hlookup]
  rw [query_of_block hblock, hopRoute, hopText, hread block hcontext]
  rfl

/-- A text that spells an object is as good a context as the mapping that is equal to it. -/
theorem query_of_spelled {inText inMapping : Operation} {fields : List (String × Json)}
    {text : String} (hexact : (Json.obj fields).IsExact)
    (hlevels : (Json.obj fields).levels < Json.depthLimit)
    (hspells : (Json.obj fields).Spells text.toList)
    (htext : DeclaresContext inText bare (.str text))
    (hmapping : DeclaresContext inMapping bare (Yaml.ofJson (.obj fields))) :
    inText.query = inMapping.query ∧
      inText.query = Query.withContext (.obj fields) <$> bare.query := by
  have hparse : Json.parse? text = some (.obj fields) :=
    Json.parse?_of_spells hexact hspells hlevels
  have hone : inText.query = Query.withContext (.obj fields) <$> bare.query :=
    query_withContext htext fun block hblock => by rw [queryContext_text hblock, hparse]
  have hother : inMapping.query = Query.withContext (.obj fields) <$> bare.query :=
    query_withContext hmapping fun block hblock => queryContext_ofJson hexact hblock
  exact ⟨hone.trans hother.symm, hone⟩

/-- What a text spells is the context, whatever it is. -/
theorem query_of_text {text : String} (hbare : bare.query = .ok query)
    (h : DeclaresContext op bare (.str text)) :
    op.query = match Json.parse? text with
      | some value => .ok (query.withContext value)
      | none => .error (op.invalidContext .notJson) := by
  split
  · next value hparse =>
    rw [query_withContext h fun block hblock => by rw [queryContext_text hblock, hparse], hbare]
    rfl
  · next hparse =>
    refine query_error_of_context h (fun block hblock => ?_) hbare
    rw [queryContext_text hblock, hparse]

/-- A context that is not an object comes from a text. -/
theorem exists_text_of_query (h : DeclaresContext op bare context) (hquery : op.query = .ok query)
    (hcontext : ¬query.context.IsObject) :
    ∃ text, context = .str text ∧ Json.parse? text = some query.context := by
  obtain ⟨block, _, hblock, _, _, hdeclared, _⟩ := h.blocks
  obtain ⟨_, _, _, _, hsame, _, _, _, hread, _⟩ := query_ok hquery
  rw [hblock] at hsame
  obtain rfl := Yaml.map.inj (Option.some.inj hsame)
  obtain ⟨text, htext, hparse⟩ := text_of_queryContext hread hcontext
  exact ⟨text, Option.some.inj (hdeclared.symm.trans htext), hparse⟩

/-- An object that is declared as a text, the compact one or another, is read as the same object
declared as a mapping is. If nothing but the context can be wrong, a value is refused that is
neither null nor a text nor a mapping, and so is a text that is not JSON. A context that is no
object is accepted exactly when a text spells it. -/
theorem context_forms_agree_unless_text (bare : Operation) :
    (∀ {fields : List (String × Json)}, (Json.obj fields).IsExact →
      (Json.obj fields).levels < Json.depthLimit →
        (Json.obj fields).Spells (Json.obj fields).compress.toList ∧
        ∀ {inText inMapping : Operation} {text : String}, (Json.obj fields).Spells text.toList →
          DeclaresContext inText bare (.str text) →
          DeclaresContext inMapping bare (Yaml.ofJson (.obj fields)) →
            inText.query = inMapping.query ∧
              inText.query = Query.withContext (.obj fields) <$> bare.query) ∧
    ∀ {op : Operation} {context : Yaml} {query : Query}, bare.query = .ok query →
      DeclaresContext op bare context →
        (context.isContextKind = false →
          op.query = .error (op.invalidContext (.notContext context.kind))) ∧
        (∀ text, context = .str text →
          op.query = match Json.parse? text with
            | some value => .ok (query.withContext value)
            | none => .error (op.invalidContext .notJson)) ∧
        ((∃ accepted, op.query = .ok accepted ∧ ¬accepted.context.IsObject) ↔
          ∃ text value, context = .str text ∧ Json.parse? text = some value ∧
            ¬value.IsObject) := by
  refine ⟨fun hexact hlevels => ⟨?_, query_of_spelled hexact hlevels⟩,
    fun hbare h => ⟨fun hkind => ?_, ?_, ?_, ?_⟩⟩
  · rw [Json.compress, String.toList_ofList]
    exact Json.spells_encode hexact
  · exact query_error_of_context h (fun _ => queryContext_refused hkind) hbare
  · rintro text rfl
    exact query_of_text hbare h
  · rintro ⟨accepted, hquery, hcontext⟩
    obtain ⟨text, htext, hparse⟩ := exists_text_of_query h hquery hcontext
    exact ⟨text, accepted.context, htext, hparse, hcontext⟩
  · rintro ⟨text, value, rfl, hparse, hvalue⟩
    have hquery := query_of_text hbare h
    rw [hparse] at hquery
    exact ⟨_, hquery, hvalue⟩

/-! ## Contexts of one operation -/

/-- An operation with a query, whose block goes on with some entries. -/
def withQuery (entries : List (Yaml × Yaml)) : Operation :=
  ⟨"/a", "get", .map [(.str "query", .map ((.str "graphql-query", .str "{ id }") :: entries))]⟩

theorem withQuery_declares (context : Yaml) :
    DeclaresContext (withQuery [(.str "json-ld-context", context)]) (withQuery []) context :=
  ⟨rfl, rfl, _, _, rfl, rfl, rfl, rfl, rfl⟩

def nestedContext : Json :=
  .obj [("b", .obj [("a", .arr [.null, .bool true, .int (-1)])]), ("a", .str "\"\n")]

theorem context_forms_agree_of_nested :
    (withQuery [(.str "json-ld-context", .str nestedContext.compress)]).query =
        .ok ⟨"geta", "{ id }", nestedContext⟩ ∧
      (withQuery [(.str "json-ld-context", Yaml.ofJson nestedContext)]).query =
        .ok ⟨"geta", "{ id }", nestedContext⟩ := by
  have hexact : nestedContext.IsExact := by
    simp [nestedContext, Json.IsExact, Json.AreExact, Json.HasExactFields, twoTo]
  have hbare : (withQuery []).query = .ok ⟨"geta", "{ id }", .obj []⟩ := rfl
  obtain ⟨hcompact, hforms⟩ :=
    (context_forms_agree_unless_text (withQuery [])).1 hexact (by decide)
  obtain ⟨hsame, hread⟩ := hforms hcompact (withQuery_declares _) (withQuery_declares _)
  rw [hbare] at hread
  exact ⟨hread, hsame.symm.trans hread⟩

/-- An array is accepted as a text, and refused as a sequence. -/
theorem array_text_accepted :
    (withQuery [(.str "json-ld-context", .str "[1]")]).query =
        .ok ⟨"geta", "{ id }", .arr [.int 1]⟩ ∧
      (withQuery [(.str "json-ld-context", .seq [.int 1])]).query =
        .error (.invalidContext "get" "/a" (.notContext "a sequence")) :=
  ⟨rfl, rfl⟩

end Operation

end LinkedApi
