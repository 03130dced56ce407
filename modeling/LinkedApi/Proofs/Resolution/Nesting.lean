import LinkedApi.Proofs.Location
import LinkedApi.Proofs.Resolution.Plain
import Mathlib.Data.List.Nodup

/-!
# Nested expansions

While a node is expanded, the keys of what is expanded around it are kept. A key tells which node
it is, so that a reference whose key is among them stands in the expansion of what it stands for.
There are only as many keys as documents and pointers give, which bounds how deep expansions are
nested.
-/

namespace LinkedApi

/-! ## References of selected nodes -/

namespace Yaml

mutual

theorem visible_subset : ∀ tree : Yaml, tree.visible ⊆ tree.references
  | .map entries => by
    rw [visible, references]
    cases Reference.written? entries with
    | some reference => exact List.subset_append_left _ _
    | none => exact visibleEntries_subset entries
  | .seq items => by
    rw [visible, references]
    exact visibleItems_subset items
  | .tagged tag value => by
    rw [visible, references]
    exact visible_subset value
  | .null | .bool _ | .int _ | .float _ | .str _ => by simp [visible]

theorem visibleItems_subset : ∀ items : List Yaml, visibleItems items ⊆ itemReferences items
  | [] => by simp [visibleItems]
  | item :: rest => by
    rw [visibleItems, itemReferences]
    exact List.append_subset.mpr ⟨List.subset_append_of_subset_left _ (visible_subset item),
      List.subset_append_of_subset_right _ (visibleItems_subset rest)⟩

theorem visibleEntries_subset : ∀ entries : List (Yaml × Yaml),
    visibleEntries entries ⊆ entryReferences entries
  | [] => by simp [visibleEntries]
  | (key, value) :: rest => by
    rw [visibleEntries, entryReferences]
    exact List.append_subset.mpr ⟨List.subset_append_of_subset_left _ (visible_subset value),
      List.subset_append_of_subset_right _ (visibleEntries_subset rest)⟩

end

theorem references_lookup? {entries : List (Yaml × Yaml)} {key : String} {value : Yaml}
    (h : lookup? entries key = some value) : value.references ⊆ entryReferences entries := by
  induction entries with
  | nil => cases h
  | cons entry rest ih =>
    obtain ⟨k, found⟩ := entry
    rw [entryReferences]
    have hlater (hrest : lookup? rest key = some value) :
        value.references ⊆ found.references ++ entryReferences rest :=
      List.subset_append_of_subset_right _ (ih hrest)
    cases k with
    | str text =>
      rw [lookup?] at h
      split at h
      · cases h
        exact List.subset_append_left _ _
      · exact hlater h
    | null | bool | int | float | seq | map | tagged => exact hlater h

theorem references_getElem? {items : List Yaml} {i : Nat} {item : Yaml}
    (h : items[i]? = some item) : item.references ⊆ itemReferences items := by
  induction items generalizing i with
  | nil => cases h
  | cons first rest ih =>
    rw [itemReferences]
    cases i with
    | zero =>
      cases h
      exact List.subset_append_left _ _
    | succ i => exact List.subset_append_of_subset_right _ (ih h)

/-- What is selected has no references that are not in the tree. -/
theorem references_step? {node selected : Yaml} {token : List Char}
    (h : Pointer.step? node token = some selected) : selected.references ⊆ node.references := by
  cases node with
  | map entries =>
    rw [references]
    exact List.subset_append_of_subset_right _ (references_lookup? h)
  | seq items =>
    obtain ⟨i, -, hitem⟩ := Option.bind_eq_some_iff.mp h
    rw [references]
    exact references_getElem? hitem
  | null | bool | int | float | str | tagged => cases h

theorem references_steps? {tokens : List (List Char)} {root node : Yaml}
    (h : tokens.foldlM Pointer.step? root = some node) : node.references ⊆ root.references := by
  induction tokens generalizing root with
  | nil =>
    cases h
    exact List.Subset.refl _
  | cons token rest ih =>
    rw [List.foldlM_cons] at h
    obtain ⟨next, hnext, h⟩ := Option.bind_eq_some_iff.mp h
    exact List.Subset.trans (ih h) (references_step? hnext)

/-- A node that is selected in a document has no references that the document has not. -/
theorem references_selected {root node : Yaml} {fragment : Option String}
    (h : Expansion.selected root fragment = .ok node) : node.references ⊆ root.references := by
  unfold Expansion.selected at h
  split at h
  · cases h
    exact List.Subset.refl _
  · split at h
    · next hselected =>
      cases h
      obtain ⟨tokens, -, hsteps⟩ := Option.bind_eq_some_iff.mp hselected
      exact references_steps? hsteps
    · cases h

end Yaml

/-! ## Keys -/

namespace Expansion

/-- The key of what a reference in the document at a location stands for. -/
def keyOf (location : Location) (reference : String) : String :=
  key ((Reference.ofText reference).locationFrom location) (Reference.ofText reference).fragment

theorem selected_getD (root : Yaml) (fragment : Option String) :
    selected root fragment = selected root (some (fragment.getD "")) := by
  cases fragment with
  | none => rfl
  | some pointer => rfl

/-- A key tells the document and the pointer, where no pointer is the same as an empty one. -/
theorem key_injective {one other : Location} (hone : one.Canonical) (hother : other.Canonical)
    {fragment fragment' : Option String} (h : key one fragment = key other fragment') :
    one = other ∧ fragment.getD "" = fragment'.getD "" := by
  have hsplit (location : Location) (hlocation : location.Canonical) (fragment : Option String) :
      Text.splitFirst? '#' (key location fragment).toList =
        some (location.toString.toList, (fragment.getD "").toList) := by
    rw [key, String.toList_append, String.toList_append, List.append_assoc]
    exact Text.splitFirst?_append (Location.number_sign_not_mem_toString hlocation) _
  have hsame := hsplit one hone fragment
  rw [h, hsplit other hother fragment'] at hsame
  obtain ⟨hlocation, hfragment⟩ := Prod.mk.inj (Option.some.inj hsame)
  have htext : one.toString = other.toString := String.toList_inj.mp hlocation.symm
  exact ⟨Location.toString_injective hone.proper hother.proper htext,
    String.toList_inj.mp hfragment.symm⟩

end Expansion

theorem Reference.number_sign_not_mem_target (text : String) :
    '#' ∉ (Reference.ofText text).target.toList := by
  have hspec := Text.splitFirst?_spec '#' text.toList
  unfold Reference.ofText
  split
  · next hsplit =>
    rw [hsplit] at hspec
    rw [String.toList_ofList]
    exact hspec.2
  · next hsplit =>
    rw [hsplit] at hspec
    exact hspec

theorem Reference.proper_locationFrom {location : Location} (h : location.Proper)
    (r : Reference) : (r.locationFrom location).Proper := by
  unfold Reference.locationFrom
  split
  · exact h
  · exact h.join r.target

theorem Reference.canonical_locationFrom {location : Location} (h : location.Canonical)
    (text : String) : ((Reference.ofText text).locationFrom location).Canonical := by
  unfold Reference.locationFrom
  split
  · exact h
  · exact h.join (Reference.number_sign_not_mem_target text)

namespace Documents

open Expansion

variable {docs : Documents}

def Opens (docs : Documents) (text : String) (target : Location × Yaml) : Prop :=
  ∃ fragment root, text = key target.1 fragment ∧ target.1.Canonical ∧
    docs.load target.1 = .ok root ∧ selected root fragment = .ok target.2

/-- What a reference stands for is in the document at the location that it names. -/
theorem dereference_ok {location : Location} {reference : String} {target : Location × Yaml}
    (h : docs.dereference location reference = .ok target) :
    ∃ root, docs.load target.1 = .ok root ∧
      selected root (Reference.ofText reference).fragment = .ok target.2 ∧
      target.1 = (Reference.ofText reference).locationFrom location := by
  unfold dereference at h
  dsimp only at h
  split at h
  · cases h
  · next root hroot =>
    cases hselected : selected root (Reference.ofText reference).fragment with
    | error reason =>
      rw [hselected] at h
      cases h
    | ok node =>
      rw [hselected] at h
      cases h
      exact ⟨root, hroot, hselected, rfl⟩

theorem opens_of_dereference {location : Location} (hlocation : location.Canonical)
    {reference : String} {target : Location × Yaml}
    (h : docs.dereference location reference = .ok target) :
    docs.Opens (keyOf location reference) target := by
  obtain ⟨root, hroot, hselected, htarget⟩ := dereference_ok h
  refine ⟨_, root, ?_, ?_, hroot, hselected⟩
  · rw [keyOf, htarget]
  · rw [htarget]
    exact Reference.canonical_locationFrom hlocation reference

/-- A reference stands for the node that has its key. -/
theorem dereference_of_opens {location : Location} (hlocation : location.Canonical)
    {reference : String} {target : Location × Yaml}
    (h : docs.Opens (keyOf location reference) target) :
    docs.dereference location reference = .ok target := by
  obtain ⟨fragment, root, hkey, hcanonical, hroot, hselected⟩ := h
  obtain ⟨hsame, hfragment⟩ :=
    key_injective (Reference.canonical_locationFrom hlocation reference) hcanonical hkey
  unfold dereference
  dsimp only
  rw [hsame, hroot]
  dsimp only
  rw [selected_getD, hfragment, ← selected_getD, hselected]
  rfl

/-! ## What is around a node -/

/-- The keys of what is expanded around a node, and of the node itself, when the expansion starts
with the document at a location. -/
inductive Chain (docs : Documents) (start : Location) : List String → Location × Yaml → Prop where
  | root {root : Yaml} (hroot : docs.load start = .ok root) :
    Chain docs start [key start none] (start, root)
  | step {around : List String} {place target : Location × Yaml} {reference : String}
    (h : Chain docs start around place) (hvisible : reference ∈ place.2.visible)
    (hnew : keyOf place.1 reference ∉ around)
    (htarget : docs.dereference place.1 reference = .ok target) :
    Chain docs start (keyOf place.1 reference :: around) target

namespace Chain

variable {start : Location} {around : List String} {place : Location × Yaml}

theorem proper (h : docs.Chain start around place) (hstart : start.Proper) : place.1.Proper := by
  induction h with
  | root _ => exact hstart
  | step _ _ _ htarget ih =>
    obtain ⟨_, -, -, hsame⟩ := dereference_ok htarget
    rw [hsame]
    exact Reference.proper_locationFrom ih _

theorem canonical (h : docs.Chain start around place) (hstart : start.Canonical) :
    place.1.Canonical := by
  induction h with
  | root _ => exact hstart
  | @step _ _ _ reference _ _ _ htarget ih =>
    obtain ⟨_, -, -, hsame⟩ := dereference_ok htarget
    rw [hsame]
    exact Reference.canonical_locationFrom ih reference

/-- What is expanded is part of a document that loads. -/
theorem loads (h : docs.Chain start around place) :
    ∃ root, docs.load place.1 = .ok root ∧ place.2.references ⊆ root.references := by
  cases h with
  | root hroot => exact ⟨_, hroot, List.Subset.refl _⟩
  | step _ _ _ htarget =>
    obtain ⟨root, hroot, hselected, -⟩ := dereference_ok htarget
    exact ⟨root, hroot, Yaml.references_selected hselected⟩

/-- No key is expanded within itself. -/
theorem nodup (h : docs.Chain start around place) : around.Nodup := by
  induction h with
  | root _ => exact List.nodup_singleton _
  | step _ _ hnew _ ih => exact List.nodup_cons.mpr ⟨hnew, ih⟩

/-- Each key is that of a node in whose expansion the innermost node is met. -/
theorem reached (h : docs.Chain start around place) (hstart : start.Canonical) {text : String}
    (htext : text ∈ around) :
    ∃ outer, docs.Opens text outer ∧ Relation.ReflTransGen docs.Meets outer place := by
  induction h with
  | @root root hroot =>
    rw [List.mem_singleton.mp htext]
    exact ⟨(start, root), ⟨none, root, rfl, hstart, hroot, rfl⟩, .refl⟩
  | step h hvisible _ htarget ih =>
    rcases List.mem_cons.mp htext with rfl | htext
    · exact ⟨_, opens_of_dereference (h.canonical hstart) htarget, .refl⟩
    · obtain ⟨outer, hopens, hreach⟩ := ih htext
      exact ⟨outer, hopens, hreach.tail ⟨_, hvisible, htarget⟩⟩

/-- A reference whose key is around it stands in the expansion of what it stands for. -/
theorem circular (h : docs.Chain start around place) (hstart : start.Canonical)
    {reference : String} (hvisible : reference ∈ place.2.visible)
    (haround : keyOf place.1 reference ∈ around) : docs.Circular place.1 reference := by
  obtain ⟨outer, hopens, hreach⟩ := h.reached hstart haround
  exact ⟨outer, place.2, dereference_of_opens (h.canonical hstart) hopens, hreach, hvisible⟩

end Chain

/-! ## The bound -/

def keys (docs : Documents) : List String :=
  docs.loadable.flatMap fun location =>
    (none :: docs.references.map fun text => (Reference.ofText text).fragment).map (key location)

@[simp]
theorem length_keys (docs : Documents) :
    docs.keys.length = docs.loadable.length * (docs.references.length + 1) := by
  simp [keys, List.length_flatMap]

theorem references_subset {location : Location} {root : Yaml} (h : docs.load location = .ok root) :
    root.references ⊆ docs.references := by
  intro reference hmem
  exact List.mem_flatMap.mpr ⟨location, docs.mem_loadable h, by rw [h]; exact hmem⟩

theorem key_mem_keys {location : Location} {root : Yaml} (h : docs.load location = .ok root)
    {fragment : Option String}
    (hfragment : fragment = none ∨
      ∃ text ∈ docs.references, fragment = (Reference.ofText text).fragment) :
    key location fragment ∈ docs.keys := by
  refine List.mem_flatMap.mpr ⟨location, docs.mem_loadable h, List.mem_map_of_mem ?_⟩
  rcases hfragment with rfl | ⟨text, htext, rfl⟩
  · exact List.mem_cons_self
  · exact List.mem_cons_of_mem _ (List.mem_map_of_mem htext)

/-- Only the keys of documents that load are expanded. -/
theorem Chain.subset_keys {start : Location} {around : List String} {place : Location × Yaml}
    (h : docs.Chain start around place) : around ⊆ docs.keys := by
  induction h with
  | root hroot =>
    exact List.cons_subset.mpr ⟨key_mem_keys hroot (.inl rfl), List.nil_subset _⟩
  | step h hvisible _ htarget ih =>
    refine List.cons_subset.mpr ⟨?_, ih⟩
    obtain ⟨root, hroot, hreferences⟩ := h.loads
    obtain ⟨root', hroot', -, hsame⟩ := dereference_ok htarget
    rw [hsame] at hroot'
    refine key_mem_keys hroot' (.inr ⟨_, ?_, rfl⟩)
    exact references_subset hroot (hreferences (Yaml.visible_subset _ hvisible))

/-- No more expansions are nested than there are keys. -/
theorem Chain.length_le {start : Location} {around : List String} {place : Location × Yaml}
    (h : docs.Chain start around place) : around.length ≤ docs.nestingBound := by
  calc around.length ≤ docs.keys.length := List.Nodup.length_le_of_subset h.nodup h.subset_keys
    _ = docs.loadable.length * (docs.references.length + 1) := length_keys docs
    _ ≤ docs.nestingBound := Nat.mul_le_mul_right _ (Nat.le_succ _)

end Documents

end LinkedApi
