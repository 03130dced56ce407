import LinkedApi.Proofs.Resolution.Exactness

/-!
# References that are left

A mapping is taken for a reference by what it holds before it is expanded. A mapping whose `$ref` is
no string stays, and what stands under its `$ref` is expanded as any other value. When this comes to
a string, the mapping is a reference that is left in the resolved tree. There is no other way.
-/

namespace LinkedApi

open Expansion Relation

namespace Yaml

mutual

/-- What stands under `$ref` in the mappings of a tree that are no references. -/
def refValues : Yaml → List Yaml
  | .map entries =>
    match Reference.written? entries with
    | some _ => []
    | none => (lookup? entries "$ref").toList ++ refValuesOfEntries entries
  | .seq items => refValuesOfItems items
  | .tagged _ value => refValues value
  | _ => []

def refValuesOfItems : List Yaml → List Yaml
  | [] => []
  | item :: rest => refValues item ++ refValuesOfItems rest

def refValuesOfEntries : List (Yaml × Yaml) → List Yaml
  | [] => []
  | (_, value) :: rest => refValues value ++ refValuesOfEntries rest

end

/-! ## References of replaced trees -/

variable {f : String → Option Expanded}

/-- These references are replaced by trees without references, and these values by trees that hold
no string. -/
def Vanish (f : String → Option Expanded) (references : List String) (values : List Yaml) : Prop :=
  (∀ r ∈ references, ∀ e, f r = some e → e.1.references = []) ∧
    ∀ value ∈ values, ∀ e, substitute f value = some e → e.1.text? = none

theorem vanish_append {first more : List String} {values others : List Yaml} :
    Vanish f (first ++ more) (values ++ others) ↔ Vanish f first values ∧ Vanish f more others := by
  simp only [Vanish, List.forall_mem_append]
  exact and_and_and_comm

/-- A replaced mapping has the keys of the mapping. -/
theorem lookup?_substituteEntries {entries : List (Yaml × Yaml)}
    {replaced : List (Yaml × Yaml) × List UnresolvedReference}
    (h : substituteEntries f entries = some replaced) (key : String) :
    match lookup? entries key with
    | none => lookup? replaced.1 key = none
    | some value => ∃ e, substitute f value = some e ∧ lookup? replaced.1 key = some e.1 := by
  induction entries generalizing replaced with
  | nil =>
    cases h
    rfl
  | cons entry rest ih =>
    obtain ⟨k, value⟩ := entry
    rw [substituteEntries] at h
    obtain ⟨first, hfirst, h⟩ := Option.bind_eq_some_iff.mp h
    obtain ⟨more, hmore, h⟩ := Option.bind_eq_some_iff.mp h
    cases h
    have hrest := ih hmore
    cases k with
    | str text =>
      rw [lookup?, lookup?]
      by_cases hkey : text = key
      · rw [if_pos hkey, if_pos hkey]
        exact ⟨first, hfirst, rfl⟩
      · rw [if_neg hkey, if_neg hkey]
        exact hrest
    | null | bool | int | float | seq | map | tagged => exact hrest

/-- A mapping that is no reference is replaced by one unless its `$ref` comes to hold a string. -/
theorem written?_substituteEntries {entries : List (Yaml × Yaml)}
    {replaced : List (Yaml × Yaml) × List UnresolvedReference}
    (h : substituteEntries f entries = some replaced) :
    (Reference.written? replaced.1).toList = [] ↔ Vanish f [] (lookup? entries "$ref").toList := by
  have hfound := lookup?_substituteEntries h "$ref"
  rw [Reference.written?]
  cases hlookup : lookup? entries "$ref" with
  | none =>
    rw [hlookup] at hfound
    rw [hfound]
    simp [Vanish]
  | some value =>
    rw [hlookup] at hfound
    obtain ⟨e, he, hfound⟩ := hfound
    rw [hfound]
    simp [Vanish, he, -Prod.forall]

mutual

/-- A replaced tree has the references of what its references are replaced by, and those of the
mappings whose `$ref` has come to hold a string. -/
theorem references_substitute : ∀ (tree : Yaml) {expanded : Expanded},
    substitute f tree = some expanded →
      (expanded.1.references = [] ↔ Vanish f tree.visible tree.refValues)
  | .map entries, _, h => by
    rw [substitute] at h
    rw [visible, refValues]
    cases hwritten : Reference.written? entries with
    | some reference =>
      rw [hwritten] at h
      dsimp only at h ⊢
      simp [Vanish, h, -Prod.forall]
    | none =>
      rw [hwritten] at h
      obtain ⟨replaced, hreplaced, h⟩ := Option.bind_eq_some_iff.mp h
      cases h
      rw [references, List.append_eq_nil_iff, written?_substituteEntries hreplaced,
        references_substituteEntries entries hreplaced, ← vanish_append, List.nil_append]
  | .seq items, _, h => by
    rw [substitute] at h
    obtain ⟨replaced, hreplaced, h⟩ := Option.bind_eq_some_iff.mp h
    cases h
    rw [references, visible, refValues]
    exact references_substituteItems items hreplaced
  | .tagged tag value, _, h => by
    rw [substitute] at h
    obtain ⟨replaced, hreplaced, h⟩ := Option.bind_eq_some_iff.mp h
    cases h
    rw [references, visible, refValues]
    exact references_substitute value hreplaced
  | .null, _, h | .bool _, _, h | .int _, _, h | .float _, _, h | .str _, _, h => by
    rw [substitute] at h
    · cases h
      simp [references, visible, refValues, Vanish]
    all_goals nofun

/-- Items come to have no references exactly when what is put into them vanishes. -/
theorem references_substituteItems : ∀ (items : List Yaml)
    {replaced : List Yaml × List UnresolvedReference}, substituteItems f items = some replaced →
      (itemReferences replaced.1 = [] ↔ Vanish f (visibleItems items) (refValuesOfItems items))
  | [], _, h => by
    cases h
    simp [itemReferences, visibleItems, refValuesOfItems, Vanish]
  | item :: rest, _, h => by
    rw [substituteItems] at h
    obtain ⟨first, hfirst, h⟩ := Option.bind_eq_some_iff.mp h
    obtain ⟨more, hmore, h⟩ := Option.bind_eq_some_iff.mp h
    cases h
    rw [itemReferences, List.append_eq_nil_iff, references_substitute item hfirst,
      references_substituteItems rest hmore, ← vanish_append]
    rfl

theorem references_substituteEntries : ∀ (entries : List (Yaml × Yaml))
    {replaced : List (Yaml × Yaml) × List UnresolvedReference},
    substituteEntries f entries = some replaced →
      (entryReferences replaced.1 = [] ↔
        Vanish f (visibleEntries entries) (refValuesOfEntries entries))
  | [], _, h => by
    cases h
    simp [entryReferences, visibleEntries, refValuesOfEntries, Vanish]
  | (key, value) :: rest, _, h => by
    rw [substituteEntries] at h
    obtain ⟨first, hfirst, h⟩ := Option.bind_eq_some_iff.mp h
    obtain ⟨more, hmore, h⟩ := Option.bind_eq_some_iff.mp h
    cases h
    rw [entryReferences, List.append_eq_nil_iff, references_substitute value hfirst,
      references_substituteEntries rest hmore, ← vanish_append]
    rfl

end

end Yaml

/-! ## Emerging references -/

namespace Documents

variable {docs : Documents}

/-- In the expansion of a node a mapping is met that is no reference, but whose `$ref` comes to
hold a string when it is expanded. -/
def Emerges (docs : Documents) (start : Location × Yaml) : Prop :=
  ∃ place, ReflTransGen docs.Meets start place ∧ ∃ value ∈ place.2.refValues,
    ∃ expanded reference, docs.Expands place.1 value expanded ∧
      expanded.1.text? = some reference

theorem Emerges.of_meets {a b : Location × Yaml} (hmeets : docs.Meets a b)
    (h : docs.Emerges b) : docs.Emerges a := by
  obtain ⟨place, hreach, hemerges⟩ := h
  exact ⟨place, hreach.head hmeets, hemerges⟩

/-- The expansion of a node has no references exactly when what is put into the node vanishes. -/
theorem references_expand {depth : Nat} {a : Location × Yaml} {expanded : Expanded}
    (h : docs.expand (depth + 1) a.1 a.2 = some expanded) :
    expanded.1.references = [] ↔
      Yaml.Vanish (docs.follow (docs.expand depth) a.1) a.2.visible a.2.refValues :=
  Yaml.references_substitute a.2 h

/-- A node without references in its expansion meets only such nodes. -/
theorem references_of_meets {a b : Location × Yaml} (hmeets : docs.Meets a b)
    {expanded expanded' : Expanded} (ha : docs.Expands a.1 a.2 expanded)
    (hb : docs.Expands b.1 b.2 expanded') (h : expanded.1.references = []) :
    expanded'.1.references = [] := by
  -- both end at the larger of the two depths
  obtain ⟨depth, ha⟩ := ha
  obtain ⟨depth', hb⟩ := hb
  have hwhole := expand_mono (Nat.le_succ_of_le (Nat.le_max_left depth depth')) ha
  have hpart := expand_mono (Nat.le_max_right depth depth') hb
  obtain ⟨reference, hvisible, hstands⟩ := hmeets
  refine ((references_expand hwhole).mp h).1 reference hvisible expanded' ?_
  rw [follow, hstands]
  exact hpart

theorem references_of_reflTransGen {a b : Location × Yaml} (hab : ReflTransGen docs.Meets a b)
    {expanded expanded' : Expanded} (ha : docs.Expands a.1 a.2 expanded)
    (hb : docs.Expands b.1 b.2 expanded') (h : expanded.1.references = []) :
    expanded'.1.references = [] := by
  induction hab generalizing expanded' with
  | refl => rwa [← ha.unique hb]
  | tail hab hmeets ih =>
    obtain ⟨between, hbetween⟩ := ha.of_reflTransGen hab
    exact references_of_meets hmeets hbetween hb (ih hbetween)

/-- What stands under `$ref` holds no string if the expansion around it has no references. -/
theorem text?_of_refValue {a : Location × Yaml} {expanded expanded' : Expanded} {value : Yaml}
    (ha : docs.Expands a.1 a.2 expanded) (hmem : value ∈ a.2.refValues)
    (hvalue : docs.Expands a.1 value expanded') (h : expanded.1.references = []) :
    expanded'.1.text? = none := by
  obtain ⟨depth, ha⟩ := ha
  obtain ⟨depth', hvalue⟩ := hvalue
  have hwhole := expand_mono (Nat.le_succ_of_le (Nat.le_max_left depth depth')) ha
  have hpart := expand_mono (Nat.le_succ_of_le (Nat.le_max_right depth depth')) hvalue
  exact ((references_expand hwhole).mp h).2 value hmem expanded' hpart

/-- Where no reference emerges, the expansion has none. -/
theorem references_of_not_emerges {depth : Nat} {a : Location × Yaml} {expanded : Expanded}
    (ha : docs.expand depth a.1 a.2 = some expanded) (h : ¬docs.Emerges a) :
    expanded.1.references = [] := by
  induction depth generalizing a expanded with
  | zero => cases ha
  | succ depth ih =>
    refine (references_expand ha).mpr ⟨?_, ?_⟩
    · intro reference hvisible expanded' hfollow
      rw [follow] at hfollow
      cases hstands : docs.dereference a.1 reference with
      | error reason =>
        rw [hstands] at hfollow
        cases hfollow
        rfl
      | ok target =>
        rw [hstands] at hfollow
        exact ih hfollow fun hemerges => h (hemerges.of_meets ⟨reference, hvisible, hstands⟩)
    · intro value hmem expanded' hvalue
      cases htext : expanded'.1.text? with
      | none => rfl
      | some reference =>
        exact absurd ⟨a, .refl, value, hmem, expanded', reference, ⟨depth + 1, hvalue⟩, htext⟩ h

/-- The expansion of a node has references exactly if one emerges in it. -/
theorem Expands.references_iff {a : Location × Yaml} {expanded : Expanded}
    (ha : docs.Expands a.1 a.2 expanded) :
    expanded.1.references = [] ↔ ¬docs.Emerges a := by
  constructor
  · rintro h ⟨place, hreach, value, hmem, expanded', reference, hvalue, htext⟩
    obtain ⟨between, hbetween⟩ := ha.of_reflTransGen hreach
    have hnone := references_of_reflTransGen hreach ha hbetween h
    rw [text?_of_refValue hbetween hmem hvalue hnone] at htext
    cases htext
  · intro h
    obtain ⟨depth, ha⟩ := ha
    exact references_of_not_emerges ha h

end Documents

/-! ## Trees without references -/

namespace Expansion

variable {expand : String → Progress → Yaml × Progress}

mutual

/-- A tree without references stays as it is. -/
theorem replace_of_visible_nil : ∀ (tree : Yaml) (p : Progress), tree.visible = [] →
    replace expand tree p = (tree, p)
  | .map entries, p, h => by
    rw [Yaml.visible] at h
    rw [replace]
    cases hwritten : Reference.written? entries with
    | some reference =>
      rw [hwritten] at h
      cases h
    | none =>
      rw [hwritten] at h
      dsimp only at h ⊢
      rw [replaceEntries_of_visible_nil entries p h]
  | .seq items, p, h => by
    rw [Yaml.visible] at h
    rw [replace, replaceItems_of_visible_nil items p h]
  | .tagged tag value, p, h => by
    rw [Yaml.visible] at h
    rw [replace, replace_of_visible_nil value p h]
  | .null, p, _ | .bool _, p, _ | .int _, p, _ | .float _, p, _ | .str _, p, _ => by
    rw [replace]
    all_goals nofun

theorem replaceItems_of_visible_nil : ∀ (items : List Yaml) (p : Progress),
    Yaml.visibleItems items = [] → replaceItems expand items p = (items, p)
  | [], p, _ => rfl
  | item :: rest, p, h => by
    rw [Yaml.visibleItems, List.append_eq_nil_iff] at h
    rw [replaceItems, replace_of_visible_nil item p h.1]
    dsimp only
    rw [replaceItems_of_visible_nil rest p h.2]

theorem replaceEntries_of_visible_nil : ∀ (entries : List (Yaml × Yaml)) (p : Progress),
    Yaml.visibleEntries entries = [] → replaceEntries expand entries p = (entries, p)
  | [], p, _ => rfl
  | (key, value) :: rest, p, h => by
    rw [Yaml.visibleEntries, List.append_eq_nil_iff] at h
    rw [replaceEntries, replace_of_visible_nil value p h.1]
    dsimp only
    rw [replaceEntries_of_visible_nil rest p h.2]

end

theorem node_of_references_nil (docs : Documents) (depth : Nat) (around : List String)
    (doc : Document) {tree : Yaml} (h : tree.references = []) (p : Progress) :
    node docs depth around doc tree p = (tree, p) := by
  have hvisible : tree.visible = [] := List.subset_nil.mp (h ▸ tree.visible_subset)
  cases depth with
  | zero => exact replace_of_visible_nil tree p hvisible
  | succ depth => exact replace_of_visible_nil tree p hvisible

end Expansion

namespace Documents

/-- A document without references is resolved to itself. -/
theorem resolveTree_of_references_nil {docs : Documents} {text : String} {tree : Yaml}
    (hroot : docs.load (.ofText text) = .ok tree) (h : tree.references = []) :
    (docs.resolveTree text).result = .ok tree := by
  have hload : Expansion.load docs (.ofText text) .start =
      (.ok tree, ⟨[(.ofText text, .ok tree)], []⟩) := by
    rw [← hroot]
    rfl
  rw [resolveTree, hload]
  dsimp only
  rw [document, node_of_references_nil _ _ _ _ h]

/-- A tree that resolving gives has references exactly if one emerges when the document is
expanded, from a mapping that is no reference before. Without one, resolving the tree again gives
it back. -/
theorem resolveTree_reference_free {docs : Documents} {text : String} {root tree : Yaml}
    (hroot : docs.load (.ofText text) = .ok root) (h : (docs.resolveTree text).result = .ok tree) :
    (tree.references = [] ↔ ¬docs.Emerges (.ofText text, root)) ∧
    (tree.references = [] → ∀ (docs' : Documents) (text' : String),
      docs'.load (.ofText text') = .ok tree → (docs'.resolveTree text').result = .ok tree) := by
  refine ⟨?_, fun hnone docs' text' hroot' => resolveTree_of_references_nil hroot' hnone⟩
  exact Expands.references_iff (a := (.ofText text, root)) (expands_of_resolveTree hroot h)

def nestedTree (value : Yaml) : Yaml :=
  .map [(.str "a", .map [(.str "$ref", .map [(.str "$ref", .str "#/b")])]), (.str "b", value),
    (.str "c", .int 1)]

theorem ofText_main : Location.ofText "/main.yaml" = .file ⟨true, ["main.yaml"]⟩ := by
  have hlocal : Location.isRemote "/main.yaml" = false := by simp [Location.isRemote]
  have hpath : Location.filePath "/main.yaml" = "/main.yaml" := by simp [Location.filePath]
  rw [Location.ofText, hlocal, hpath]
  rfl

/-- A number that is put under `$ref` makes no reference. -/
theorem resolveTree_reference_free_of_number :
    ¬(single ⟨true, ["main.yaml"]⟩ (nestedTree (.int 2))).Emerges
        (.ofText "/main.yaml", nestedTree (.int 2)) ∧
      ∃ tree, ((single ⟨true, ["main.yaml"]⟩ (nestedTree (.int 2))).resolveTree
          "/main.yaml").result = .ok tree ∧
        ((single ⟨true, ["main.yaml"]⟩ tree).resolveTree "/main.yaml").result = .ok tree := by
  have hroot (tree : Yaml) :
      (single ⟨true, ["main.yaml"]⟩ tree).load (.ofText "/main.yaml") = .ok tree := by
    rw [ofText_main]
    rfl
  have hresult : ((single ⟨true, ["main.yaml"]⟩ (nestedTree (.int 2))).resolveTree
      "/main.yaml").result = .ok (.map [(.str "a", .map [(.str "$ref", .int 2)]),
        (.str "b", .int 2), (.str "c", .int 1)]) := by
    rw [resolveTree, ofText_main]
    rfl
  obtain ⟨hiff, hagain⟩ := resolveTree_reference_free (hroot _) hresult
  exact ⟨hiff.mp rfl, _, hresult, hagain rfl _ _ (hroot _)⟩

/-- A string that is put under `$ref` makes a reference, which is left. -/
theorem resolveTree_not_reference_free :
    ((single ⟨true, ["main.yaml"]⟩ (nestedTree (.str "#/c"))).resolveTree "/main.yaml").result =
        .ok (.map [(.str "a", .map [(.str "$ref", .str "#/c")]), (.str "b", .str "#/c"),
          (.str "c", .int 1)]) ∧
      Yaml.references (.map [(.str "a", .map [(.str "$ref", .str "#/c")]), (.str "b", .str "#/c"),
        (.str "c", .int 1)]) = ["#/c"] := by
  refine ⟨?_, rfl⟩
  rw [resolveTree, ofText_main]
  rfl

end Documents

end LinkedApi
