import LinkedApi.Proofs.Resolution.Exactness

/-!
# Resolution ends

What resolving a document does is described by rules that know of no bound. A document and what its
references stand for are walked through from left to right, and a walk is a finite derivation from
these rules. For every document there is exactly one walk, and resolving follows it: the keys around
a node never repeat, and each is made of a document that loads and of a pointer that stands in one.
-/

namespace LinkedApi

def Yaml.IsScalar : Yaml → Prop
  | .map _ | .seq _ | .tagged _ _ => False
  | _ => True

namespace Expansion

variable {docs : Documents}

mutual

/-- A walk through a node of a document, with the keys of what is expanded around it, comes to an
end. -/
inductive Ends (docs : Documents) :
    List String → Document → Yaml → Progress → Yaml × Progress → Prop where
  | scalar {around : List String} {doc : Document} {tree : Yaml} {p : Progress}
    (h : tree.IsScalar) : Ends docs around doc tree p (tree, p)
  | seq {around : List String} {doc : Document} {items items' : List Yaml} {p p' : Progress}
    (h : ItemsEnd docs around doc items p (items', p')) :
    Ends docs around doc (.seq items) p (.seq items', p')
  | map {around : List String} {doc : Document} {entries entries' : List (Yaml × Yaml)}
    {p p' : Progress} (hwritten : Reference.written? entries = none)
    (h : EntriesEnd docs around doc entries p (entries', p')) :
    Ends docs around doc (.map entries) p (.map entries', p')
  | tagged {around : List String} {doc : Document} {tag : String} {value value' : Yaml}
    {p p' : Progress} (h : Ends docs around doc value p (value', p')) :
    Ends docs around doc (.tagged tag value) p (.tagged tag value', p')
  | reference {around : List String} {doc : Document} {entries : List (Yaml × Yaml)}
    {reference : String} {p : Progress} {ended : Yaml × Progress}
    (hwritten : Reference.written? entries = some reference)
    (h : ReferenceEnds docs around doc reference p ended) :
    Ends docs around doc (.map entries) p ended

inductive ItemsEnd (docs : Documents) :
    List String → Document → List Yaml → Progress → List Yaml × Progress → Prop where
  | nil {around : List String} {doc : Document} {p : Progress} :
    ItemsEnd docs around doc [] p ([], p)
  | cons {around : List String} {doc : Document} {item item' : Yaml} {rest rest' : List Yaml}
    {p p₁ p₂ : Progress} (hitem : Ends docs around doc item p (item', p₁))
    (hrest : ItemsEnd docs around doc rest p₁ (rest', p₂)) :
    ItemsEnd docs around doc (item :: rest) p (item' :: rest', p₂)

inductive EntriesEnd (docs : Documents) :
    List String → Document → List (Yaml × Yaml) → Progress → List (Yaml × Yaml) × Progress →
      Prop where
  | nil {around : List String} {doc : Document} {p : Progress} :
    EntriesEnd docs around doc [] p ([], p)
  | cons {around : List String} {doc : Document} {key value value' : Yaml}
    {rest rest' : List (Yaml × Yaml)} {p p₁ p₂ : Progress}
    (hvalue : Ends docs around doc value p (value', p₁))
    (hrest : EntriesEnd docs around doc rest p₁ (rest', p₂)) :
    EntriesEnd docs around doc ((key, value) :: rest) p ((key, value') :: rest', p₂)

/-- What a reference stands for is walked through as a node of its own document. The walk ends at
once when this is being done already, when the document does not load, or when nothing is
selected in it. -/
inductive ReferenceEnds (docs : Documents) :
    List String → Document → String → Progress → Yaml × Progress → Prop where
  | cycle {around : List String} {doc : Document} {reference : String} {p : Progress}
    (haround : keyOf doc.location reference ∈ around) :
    ReferenceEnds docs around doc reference p (fail doc reference .cycle p)
  | notLoaded {around : List String} {doc : Document} {reference : String} {p p' : Progress}
    {cause : LoadFailure} (hnew : keyOf doc.location reference ∉ around)
    (htarget : target docs doc ((Reference.ofText reference).locationFrom doc.location)
      (Reference.ofText reference) p = (.error cause, p')) :
    ReferenceEnds docs around doc reference p (fail doc reference (.notLoaded cause) p')
  | notSelected {around : List String} {doc : Document} {reference : String} {p p' : Progress}
    {root : Yaml} {reason : ReferenceFailure} (hnew : keyOf doc.location reference ∉ around)
    (htarget : target docs doc ((Reference.ofText reference).locationFrom doc.location)
      (Reference.ofText reference) p = (.ok root, p'))
    (hselected : selected root (Reference.ofText reference).fragment = .error reason) :
    ReferenceEnds docs around doc reference p (fail doc reference reason p')
  | expanded {around : List String} {doc : Document} {reference : String} {p p' : Progress}
    {root start : Yaml} {ended : Yaml × Progress} (hnew : keyOf doc.location reference ∉ around)
    (htarget : target docs doc ((Reference.ofText reference).locationFrom doc.location)
      (Reference.ofText reference) p = (.ok root, p'))
    (hselected : selected root (Reference.ofText reference).fragment = .ok start)
    (h : Ends docs (keyOf doc.location reference :: around)
      ⟨(Reference.ofText reference).locationFrom doc.location, root⟩ start p' ended) :
    ReferenceEnds docs around doc reference p ended

end

/-! ## A walk ends in one way only -/

mutual

theorem Ends.unique : ∀ {around : List String} {doc : Document} {tree : Yaml} {p : Progress}
    {one other : Yaml × Progress}, Ends docs around doc tree p one →
    Ends docs around doc tree p other → one = other
  | _, _, _, _, _, _, .scalar hscalar, h => by
    cases h <;> first | rfl | cases hscalar
  | _, _, _, _, _, _, .seq hitems, h => by
    cases h with
    | scalar hscalar => cases hscalar
    | seq hitems' => cases ItemsEnd.unique hitems hitems'; rfl
  | _, _, _, _, _, _, .map hwritten hentries, h => by
    cases h with
    | scalar hscalar => cases hscalar
    | map _ hentries' => cases EntriesEnd.unique hentries hentries'; rfl
    | reference hwritten' _ => rw [hwritten] at hwritten'; cases hwritten'
  | _, _, _, _, _, _, .tagged hvalue, h => by
    cases h with
    | scalar hscalar => cases hscalar
    | tagged hvalue' => cases Ends.unique hvalue hvalue'; rfl
  | _, _, _, _, _, _, .reference hwritten hreference, h => by
    cases h with
    | scalar hscalar => cases hscalar
    | map hwritten' _ => rw [hwritten] at hwritten'; cases hwritten'
    | reference hwritten' hreference' =>
      rw [hwritten] at hwritten'
      cases hwritten'
      exact ReferenceEnds.unique hreference hreference'
termination_by structural _ _ _ _ _ _ h => h

theorem ItemsEnd.unique : ∀ {around : List String} {doc : Document} {items : List Yaml}
    {p : Progress} {one other : List Yaml × Progress}, ItemsEnd docs around doc items p one →
    ItemsEnd docs around doc items p other → one = other
  | _, _, _, _, _, _, .nil, h => by
    cases h
    rfl
  | _, _, _, _, _, _, .cons hitem hrest, h => by
    cases h with
    | cons hitem' hrest' =>
      cases Ends.unique hitem hitem'
      cases ItemsEnd.unique hrest hrest'
      rfl
termination_by structural _ _ _ _ _ _ h => h

theorem EntriesEnd.unique : ∀ {around : List String} {doc : Document}
    {entries : List (Yaml × Yaml)} {p : Progress} {one other : List (Yaml × Yaml) × Progress},
    EntriesEnd docs around doc entries p one → EntriesEnd docs around doc entries p other →
    one = other
  | _, _, _, _, _, _, .nil, h => by
    cases h
    rfl
  | _, _, _, _, _, _, .cons hvalue hrest, h => by
    cases h with
    | cons hvalue' hrest' =>
      cases Ends.unique hvalue hvalue'
      cases EntriesEnd.unique hrest hrest'
      rfl
termination_by structural _ _ _ _ _ _ h => h

theorem ReferenceEnds.unique : ∀ {around : List String} {doc : Document} {reference : String}
    {p : Progress} {one other : Yaml × Progress}, ReferenceEnds docs around doc reference p one →
    ReferenceEnds docs around doc reference p other → one = other
  | _, _, _, _, _, _, .cycle haround, h => by
    cases h <;> first | rfl | contradiction
  | _, _, _, _, _, _, .notLoaded hnew htarget, h => by
    cases h <;> simp_all
  | _, _, _, _, _, _, .notSelected hnew htarget hselected, h => by
    cases h <;> simp_all
  | _, _, _, _, _, _, .expanded hnew htarget hselected hstart, h => by
    cases h with
    | cycle haround => exact absurd haround hnew
    | notLoaded _ htarget' => simp_all
    | notSelected _ htarget' hselected' => simp_all
    | expanded _ htarget' hselected' hstart' =>
      rw [htarget] at htarget'
      cases htarget'
      rw [hselected] at hselected'
      cases hselected'
      exact Ends.unique hstart hstart'
termination_by structural _ _ _ _ _ _ h => h

end

/-! ## A walk always ends -/

section Replacement

variable {around : List String} {doc : Document} {expand : String → Progress → Yaml × Progress}

mutual

/-- A walk through a tree ends if it ends at the references of the tree. -/
theorem replace_ends : ∀ (tree : Yaml) {p : Progress}, p.Faithful docs →
    (∀ r ∈ tree.visible, ∀ {p : Progress}, p.Faithful docs →
      ReferenceEnds docs around doc r p (expand r p) ∧ (expand r p).2.Faithful docs) →
    Ends docs around doc tree p (replace expand tree p) ∧
      (replace expand tree p).2.Faithful docs
  | .map entries, p, hp, h => by
    rw [Yaml.visible] at h
    rw [replace]
    cases hwritten : Reference.written? entries with
    | some reference =>
      -- what the reference stands for is no part of this tree
      rw [hwritten] at h
      obtain ⟨hends, hfaithful⟩ := h reference (List.mem_singleton_self _) hp
      exact ⟨.reference hwritten hends, hfaithful⟩
    | none =>
      rw [hwritten] at h
      obtain ⟨hends, hfaithful⟩ := replaceEntries_ends entries hp h
      exact ⟨.map hwritten hends, hfaithful⟩
  | .seq items, p, hp, h => by
    rw [Yaml.visible] at h
    rw [replace]
    obtain ⟨hends, hfaithful⟩ := replaceItems_ends items hp h
    exact ⟨.seq hends, hfaithful⟩
  | .tagged tag value, p, hp, h => by
    rw [Yaml.visible] at h
    rw [replace]
    obtain ⟨hends, hfaithful⟩ := replace_ends value hp h
    exact ⟨.tagged hends, hfaithful⟩
  | .null, p, hp, _ | .bool _, p, hp, _ | .int _, p, hp, _ | .float _, p, hp, _
  | .str _, p, hp, _ => by
    rw [replace]
    · exact ⟨.scalar trivial, hp⟩
    all_goals nofun

theorem replaceItems_ends : ∀ (items : List Yaml) {p : Progress}, p.Faithful docs →
    (∀ r ∈ Yaml.visibleItems items, ∀ {p : Progress}, p.Faithful docs →
      ReferenceEnds docs around doc r p (expand r p) ∧ (expand r p).2.Faithful docs) →
    ItemsEnd docs around doc items p (replaceItems expand items p) ∧
      (replaceItems expand items p).2.Faithful docs
  | [], p, hp, _ => ⟨.nil, hp⟩
  | item :: rest, p, hp, h => by
    rw [Yaml.visibleItems, List.forall_mem_append] at h
    obtain ⟨hitem, hmiddle⟩ := replace_ends item hp h.1
    obtain ⟨hrest, hfaithful⟩ := replaceItems_ends rest hmiddle h.2
    exact ⟨.cons hitem hrest, hfaithful⟩

theorem replaceEntries_ends : ∀ (entries : List (Yaml × Yaml)) {p : Progress},
    p.Faithful docs →
    (∀ r ∈ Yaml.visibleEntries entries, ∀ {p : Progress}, p.Faithful docs →
      ReferenceEnds docs around doc r p (expand r p) ∧ (expand r p).2.Faithful docs) →
    EntriesEnd docs around doc entries p (replaceEntries expand entries p) ∧
      (replaceEntries expand entries p).2.Faithful docs
  | [], p, hp, _ => ⟨.nil, hp⟩
  | (key, value) :: rest, p, hp, h => by
    rw [Yaml.visibleEntries, List.forall_mem_append] at h
    obtain ⟨hvalue, hmiddle⟩ := replace_ends value hp h.1
    obtain ⟨hrest, hfaithful⟩ := replaceEntries_ends rest hmiddle h.2
    exact ⟨.cons hvalue hrest, hfaithful⟩

end

end Replacement

/-- A walk ends at a reference if it ends at the node that the reference stands for. -/
theorem resolved_ends {depth : Nat} {around : List String} {location : Location} {root : Yaml}
    (hlocation : location.Proper) (hroot : docs.load location = .ok root) {reference : String}
    {p : Progress} (hp : p.Faithful docs)
    (hnested : keyOf location reference ∉ around → ∀ {target : Location × Yaml},
      docs.dereference location reference = .ok target → ∀ {inner : Yaml},
      docs.load target.1 = .ok inner → ∀ {p : Progress}, p.Faithful docs →
      Ends docs (keyOf location reference :: around) ⟨target.1, inner⟩ target.2 p
          (node docs depth (keyOf location reference :: around) ⟨target.1, inner⟩ target.2 p) ∧
        (node docs depth (keyOf location reference :: around) ⟨target.1, inner⟩ target.2
          p).2.Faithful docs) :
    ReferenceEnds docs around ⟨location, root⟩ reference p
        (resolved docs depth around ⟨location, root⟩ reference p) ∧
      (resolved docs depth around ⟨location, root⟩ reference p).2.Faithful docs := by
  by_cases haround : keyOf location reference ∈ around
  · have hfail : resolved docs depth around ⟨location, root⟩ reference p =
        fail ⟨location, root⟩ reference .cycle p := if_pos (by simpa using haround)
    rw [hfail]
    exact ⟨.cycle haround, hp⟩
  · obtain ⟨p', htarget, hp', -⟩ := target_faithful hlocation hroot reference hp
    unfold resolved
    dsimp only
    rw [if_neg (by simpa using haround), htarget]
    cases hload : docs.load ((Reference.ofText reference).locationFrom location) with
    | error cause => exact ⟨.notLoaded haround (htarget.trans (by rw [hload])), hp'⟩
    | ok inner =>
      rw [hload] at htarget
      dsimp only
      cases hselected : selected inner (Reference.ofText reference).fragment with
      | error reason => exact ⟨.notSelected haround htarget hselected, hp'⟩
      | ok start =>
        have hstands : docs.dereference location reference =
            .ok ((Reference.ofText reference).locationFrom location, start) := by
          rw [Documents.dereference, hload]
          dsimp only
          rw [hselected]
          rfl
        obtain ⟨hends, hfaithful⟩ := hnested haround hstands hload hp'
        exact ⟨.expanded haround htarget hselected hends, hfaithful⟩

/-- A walk ends if it may be nested as deep as there are keys left. -/
theorem node_ends {start : Location} (hstart : start.Proper) {depth : Nat} {around : List String}
    {place : Location × Yaml} (hchain : docs.Chain start around place)
    (hdepth : docs.nestingBound + 1 ≤ depth + around.length) {root : Yaml}
    (hroot : docs.load place.1 = .ok root) {p : Progress} (hp : p.Faithful docs) :
    Ends docs around ⟨place.1, root⟩ place.2 p (node docs depth around ⟨place.1, root⟩ place.2 p) ∧
      (node docs depth around ⟨place.1, root⟩ place.2 p).2.Faithful docs := by
  induction depth generalizing around place root p with
  | zero =>
    -- the keys around are distinct and all among the keys of the documents
    have hlength := hchain.length_le
    omega
  | succ depth ih =>
    rw [node_succ]
    refine replace_ends place.2 hp fun reference hvisible p hp => ?_
    refine resolved_ends (hchain.proper hstart) hroot hp ?_
    intro hnew target hstands inner hinner p hp
    exact ih (hchain.step hvisible hnew hstands) (by rw [List.length_cons]; omega) hinner hp

end Expansion

/-! ## Resolution -/

namespace Documents

open Expansion

/-- Resolving the document at a location comes to an end. -/
inductive Resolves (docs : Documents) (text : String) : Resolved Yaml → Prop where
  | notLoaded {cause : LoadFailure} {p : Progress}
    (hload : Expansion.load docs (.ofText text) .start = (.error cause, p)) :
    Resolves docs text
      ⟨.error (.root (Location.ofText text).toString cause), p.loaded.map (·.1)⟩
  | loaded {root tree : Yaml} {p p' : Progress}
    (hload : Expansion.load docs (.ofText text) .start = (.ok root, p))
    (h : Ends docs [key (.ofText text) none] ⟨.ofText text, root⟩ root p (tree, p')) :
    Resolves docs text ⟨resultOf (tree, p'.failures), p'.loaded.map (·.1)⟩

/-- A resolution ends in one way only. -/
theorem Resolves.unique {docs : Documents} {text : String} {one other : Resolved Yaml}
    (h : docs.Resolves text one) (h' : docs.Resolves text other) : one = other := by
  cases h with
  | notLoaded hload =>
    cases h' with
    | notLoaded hload' => rw [hload] at hload'; cases hload'; rfl
    | loaded hload' _ => rw [hload] at hload'; cases hload'
  | loaded hload hends =>
    cases h' with
    | notLoaded hload' => rw [hload] at hload'; cases hload'
    | loaded hload' hends' =>
      rw [hload] at hload'
      cases hload'
      cases hends.unique hends'
      rfl

/-- Resolving ends, and with the result that is computed. -/
theorem resolves_resolveTree (docs : Documents) (text : String) :
    docs.Resolves text (docs.resolveTree text) := by
  have hproper := Location.proper_ofText text
  have hstart : Progress.start.Faithful docs := start_faithful
  obtain ⟨p, hload, hp, -⟩ := load_faithful hproper hstart
  rw [resolveTree]
  cases hroot : docs.load (.ofText text) with
  | error cause =>
    rw [hroot] at hload
    dsimp only
    rw [hload]
    exact .notLoaded hload
  | ok root =>
    rw [hroot] at hload
    dsimp only
    rw [hload]
    obtain ⟨hends, -⟩ := node_ends hproper (.root hroot) (Nat.le_refl _) hroot hp
    exact .loaded hload hends

/-- Whatever references the documents contain, there is exactly one way to walk through them, it
comes to an end, and resolving gives what it comes to. -/
theorem resolution_ends (docs : Documents) (text : String) (resolved : Resolved Yaml) :
    docs.Resolves text resolved ↔ resolved = docs.resolveTree text := by
  constructor
  · intro h
    exact h.unique (docs.resolves_resolveTree text)
  · rintro rfl
    exact docs.resolves_resolveTree text

end Documents

end LinkedApi
