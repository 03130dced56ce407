import LinkedApi.Resolution
import Mathlib.Logic.Relation

/-!
# Plain expansion

What a tree stands for when each reference in it is replaced by the expansion of the node it
selects. Nothing is remembered of the documents that were loaded, and nothing is known of what is
being expanded around a reference, so that a plain expansion need not end.
-/

namespace LinkedApi

/-- A tree without references, with the references that failed in the order of the text. -/
abbrev Expanded := Yaml × List UnresolvedReference

namespace Yaml

mutual

def visible : Yaml → List String
  | .map entries =>
    match Reference.written? entries with
    | some reference => [reference]
    | none => visibleEntries entries
  | .seq items => visibleItems items
  | .tagged _ value => visible value
  | _ => []

def visibleItems : List Yaml → List String
  | [] => []
  | item :: rest => visible item ++ visibleItems rest

def visibleEntries : List (Yaml × Yaml) → List String
  | [] => []
  | (_, value) :: rest => visible value ++ visibleEntries rest

end

mutual

/-- The tree in which each reference is replaced by what `f` gives for it. Scalars, keys, tags and
the order are kept. -/
def substitute (f : String → Option Expanded) : Yaml → Option Expanded
  | .map entries =>
    match Reference.written? entries with
    | some reference => f reference
    | none => do
      let (entries, failures) ← substituteEntries f entries
      return (.map entries, failures)
  | .seq items => do
    let (items, failures) ← substituteItems f items
    return (.seq items, failures)
  | .tagged tag value => do
    let (value, failures) ← substitute f value
    return (.tagged tag value, failures)
  | scalar => some (scalar, [])

def substituteItems (f : String → Option Expanded) :
    List Yaml → Option (List Yaml × List UnresolvedReference)
  | [] => some ([], [])
  | item :: rest => do
    let (item, first) ← substitute f item
    let (rest, more) ← substituteItems f rest
    return (item :: rest, first ++ more)

def substituteEntries (f : String → Option Expanded) :
    List (Yaml × Yaml) → Option (List (Yaml × Yaml) × List UnresolvedReference)
  | [] => some ([], [])
  | (key, value) :: rest => do
    let (value, first) ← substitute f value
    let (rest, more) ← substituteEntries f rest
    return ((key, value) :: rest, first ++ more)

end

end Yaml

/-- The location that a reference names in the document at another. -/
def Reference.locationFrom (location : Location) (r : Reference) : Location :=
  if r.target.isEmpty then location else location.join r.target

namespace Documents

/-- The node that a reference in the document at a location stands for, with the location of the
document it is in. -/
def dereference (docs : Documents) (location : Location) (reference : String) :
    Except ReferenceFailure (Location × Yaml) :=
  let r := Reference.ofText reference
  match docs.load (r.locationFrom location) with
  | .error cause => .error (.notLoaded cause)
  | .ok root =>
    (Expansion.selected root r.fragment).map fun node => (r.locationFrom location, node)

/-- A reference that stands for a node is replaced by what `next` gives for this node. -/
def follow (docs : Documents) (next : Location → Yaml → Option Expanded) (location : Location)
    (reference : String) : Option Expanded :=
  match docs.dereference location reference with
  | .ok (target, node) => next target node
  | .error reason => some (.null, [⟨reference, location.toString, reason⟩])

/-- The plain expansion of a node, if references are nested in it less than `depth` deep. -/
def expand (docs : Documents) : Nat → Location → Yaml → Option Expanded
  | 0 => fun _ _ => none
  | depth + 1 => fun location => Yaml.substitute (docs.follow (docs.expand depth) location)

/-- The plain expansion of a node ends with a tree and with some failures. -/
def Expands (docs : Documents) (location : Location) (node : Yaml) (expanded : Expanded) : Prop :=
  ∃ depth, docs.expand depth location node = some expanded

/-- The plain expansion of a reference never ends. -/
def Endless (docs : Documents) (location : Location) (reference : String) : Prop :=
  ∀ depth, docs.follow (docs.expand depth) location reference = none

/-- A node is met directly in the plain expansion of another. -/
def Meets (docs : Documents) (a b : Location × Yaml) : Prop :=
  ∃ reference ∈ a.2.visible, docs.dereference a.1 reference = .ok b

/-- A reference stands in the expansion of the node that it stands for. -/
def Circular (docs : Documents) (location : Location) (reference : String) : Prop :=
  ∃ target node, docs.dereference location reference = .ok target ∧
    Relation.ReflTransGen docs.Meets target (location, node) ∧ reference ∈ node.visible

end Documents

/-! ## Substitution -/

namespace Yaml

variable {f g : String → Option Expanded}

mutual

/-- A tree is replaced only if all its references are. -/
theorem substitute_visible : ∀ (tree : Yaml) {expanded : Expanded},
    substitute f tree = some expanded → ∀ r ∈ tree.visible, ∃ e, f r = some e
  | .map entries, expanded, h => by
    rw [substitute] at h
    rw [visible]
    cases hwritten : Reference.written? entries with
    | some reference =>
      rw [hwritten] at h
      intro r hr
      rw [List.mem_singleton.mp hr]
      exact ⟨expanded, h⟩
    | none =>
      rw [hwritten] at h
      obtain ⟨found, hfound, -⟩ := Option.bind_eq_some_iff.mp h
      exact substituteEntries_visible entries hfound
  | .seq items, _, h => by
    rw [substitute] at h
    obtain ⟨found, hfound, -⟩ := Option.bind_eq_some_iff.mp h
    exact substituteItems_visible items hfound
  | .tagged tag value, _, h => by
    rw [substitute] at h
    obtain ⟨found, hfound, -⟩ := Option.bind_eq_some_iff.mp h
    exact substitute_visible value hfound
  | .null, _, _ | .bool _, _, _ | .int _, _, _ | .float _, _, _ | .str _, _, _ => by
    simp [visible]

theorem substituteItems_visible : ∀ (items : List Yaml)
    {expanded : List Yaml × List UnresolvedReference},
    substituteItems f items = some expanded → ∀ r ∈ visibleItems items, ∃ e, f r = some e
  | [], _, _ => by simp [visibleItems]
  | item :: rest, _, h => by
    rw [substituteItems] at h
    obtain ⟨first, hfirst, h⟩ := Option.bind_eq_some_iff.mp h
    obtain ⟨more, hmore, -⟩ := Option.bind_eq_some_iff.mp h
    rw [visibleItems]
    intro r hr
    rcases List.mem_append.mp hr with hr | hr
    · exact substitute_visible item hfirst r hr
    · exact substituteItems_visible rest hmore r hr

theorem substituteEntries_visible : ∀ (entries : List (Yaml × Yaml))
    {expanded : List (Yaml × Yaml) × List UnresolvedReference},
    substituteEntries f entries = some expanded →
      ∀ r ∈ visibleEntries entries, ∃ e, f r = some e
  | [], _, _ => by simp [visibleEntries]
  | (key, value) :: rest, _, h => by
    rw [substituteEntries] at h
    obtain ⟨first, hfirst, h⟩ := Option.bind_eq_some_iff.mp h
    obtain ⟨more, hmore, -⟩ := Option.bind_eq_some_iff.mp h
    rw [visibleEntries]
    intro r hr
    rcases List.mem_append.mp hr with hr | hr
    · exact substitute_visible value hfirst r hr
    · exact substituteEntries_visible rest hmore r hr

end

mutual

/-- A tree is replaced in the same way by whatever gives at least as much. -/
theorem substitute_mono (hfg : ∀ r e, f r = some e → g r = some e) : ∀ (tree : Yaml)
    {expanded : Expanded}, substitute f tree = some expanded → substitute g tree = some expanded
  | .map entries, _, h => by
    rw [substitute] at h ⊢
    cases hwritten : Reference.written? entries with
    | some reference =>
      rw [hwritten] at h
      exact hfg reference _ h
    | none =>
      rw [hwritten] at h
      obtain ⟨found, hfound, h⟩ := Option.bind_eq_some_iff.mp h
      exact Option.bind_eq_some_iff.mpr ⟨found, substituteEntries_mono hfg entries hfound, h⟩
  | .seq items, _, h => by
    rw [substitute] at h ⊢
    obtain ⟨found, hfound, h⟩ := Option.bind_eq_some_iff.mp h
    exact Option.bind_eq_some_iff.mpr ⟨found, substituteItems_mono hfg items hfound, h⟩
  | .tagged tag value, _, h => by
    rw [substitute] at h ⊢
    obtain ⟨found, hfound, h⟩ := Option.bind_eq_some_iff.mp h
    exact Option.bind_eq_some_iff.mpr ⟨found, substitute_mono hfg value hfound, h⟩
  | .null, _, h | .bool _, _, h | .int _, _, h | .float _, _, h | .str _, _, h => by
    rw [substitute] at h ⊢
    · exact h
    all_goals nofun

theorem substituteItems_mono (hfg : ∀ r e, f r = some e → g r = some e) : ∀ (items : List Yaml)
    {expanded : List Yaml × List UnresolvedReference},
    substituteItems f items = some expanded → substituteItems g items = some expanded
  | [], _, h => h
  | item :: rest, _, h => by
    rw [substituteItems] at h ⊢
    obtain ⟨first, hfirst, h⟩ := Option.bind_eq_some_iff.mp h
    obtain ⟨more, hmore, h⟩ := Option.bind_eq_some_iff.mp h
    refine Option.bind_eq_some_iff.mpr ⟨first, substitute_mono hfg item hfirst, ?_⟩
    exact Option.bind_eq_some_iff.mpr ⟨more, substituteItems_mono hfg rest hmore, h⟩

theorem substituteEntries_mono (hfg : ∀ r e, f r = some e → g r = some e) :
    ∀ (entries : List (Yaml × Yaml)) {expanded : List (Yaml × Yaml) × List UnresolvedReference},
    substituteEntries f entries = some expanded → substituteEntries g entries = some expanded
  | [], _, h => h
  | (key, value) :: rest, _, h => by
    rw [substituteEntries] at h ⊢
    obtain ⟨first, hfirst, h⟩ := Option.bind_eq_some_iff.mp h
    obtain ⟨more, hmore, h⟩ := Option.bind_eq_some_iff.mp h
    refine Option.bind_eq_some_iff.mpr ⟨first, substitute_mono hfg value hfirst, ?_⟩
    exact Option.bind_eq_some_iff.mpr ⟨more, substituteEntries_mono hfg rest hmore, h⟩

end

end Yaml

/-! ## Endings -/

namespace Documents

variable {docs : Documents}

theorem follow_mono {next next' : Location → Yaml → Option Expanded}
    (h : ∀ location node e, next location node = some e → next' location node = some e)
    {location : Location} {reference : String} {expanded : Expanded}
    (hfollow : docs.follow next location reference = some expanded) :
    docs.follow next' location reference = some expanded := by
  unfold follow at hfollow ⊢
  split at hfollow
  · exact h _ _ _ hfollow
  · exact hfollow

theorem expand_succ {depth : Nat} {location : Location} {node : Yaml} {expanded : Expanded}
    (h : docs.expand depth location node = some expanded) :
    docs.expand (depth + 1) location node = some expanded := by
  induction depth generalizing location node expanded with
  | zero => cases h
  | succ depth ih =>
    exact Yaml.substitute_mono (fun _ _ => follow_mono fun _ _ _ => ih) node h

/-- A plain expansion that ends at some depth ends alike at any greater one. -/
theorem expand_mono {depth depth' : Nat} (hle : depth ≤ depth') {location : Location}
    {node : Yaml} {expanded : Expanded} (h : docs.expand depth location node = some expanded) :
    docs.expand depth' location node = some expanded := by
  induction hle with
  | refl => exact h
  | step _ ih => exact expand_succ ih

/-- A plain expansion ends in one way only. -/
theorem Expands.unique {location : Location} {node : Yaml} {expanded expanded' : Expanded}
    (h : docs.Expands location node expanded) (h' : docs.Expands location node expanded') :
    expanded = expanded' := by
  obtain ⟨depth, h⟩ := h
  obtain ⟨depth', h'⟩ := h'
  have hone := expand_mono (Nat.le_max_left depth depth') h
  have hother := expand_mono (Nat.le_max_right depth depth') h'
  exact Option.some.inj (hone.symm.trans hother)

/-- What is met directly ends less deep. -/
theorem expand_of_meets {a b : Location × Yaml} (hmeets : docs.Meets a b) {depth : Nat}
    {expanded : Expanded} (h : docs.expand (depth + 1) a.1 a.2 = some expanded) :
    ∃ expanded', docs.expand depth b.1 b.2 = some expanded' := by
  obtain ⟨reference, hvisible, hb⟩ := hmeets
  obtain ⟨expanded', hfollow⟩ := Yaml.substitute_visible a.2 h reference hvisible
  rw [follow, hb] at hfollow
  exact ⟨expanded', hfollow⟩

/-- Where an expansion ends, so does that of each node that it meets. -/
theorem Expands.of_meets {a b : Location × Yaml} (hmeets : docs.Meets a b) {expanded : Expanded}
    (h : docs.Expands a.1 a.2 expanded) : ∃ expanded', docs.Expands b.1 b.2 expanded' := by
  obtain ⟨depth, h⟩ := h
  obtain ⟨expanded', h'⟩ := expand_of_meets hmeets (expand_succ h)
  exact ⟨expanded', depth, h'⟩

theorem Expands.of_reflTransGen {a b : Location × Yaml}
    (hab : Relation.ReflTransGen docs.Meets a b) {expanded : Expanded}
    (h : docs.Expands a.1 a.2 expanded) : ∃ expanded', docs.Expands b.1 b.2 expanded' := by
  induction hab with
  | refl => exact ⟨expanded, h⟩
  | tail _ hmeets ih =>
    obtain ⟨expanded', h'⟩ := ih
    exact h'.of_meets hmeets

theorem expand_of_transGen {a b : Location × Yaml} (hab : Relation.TransGen docs.Meets a b)
    {depth : Nat} {expanded : Expanded} (h : docs.expand (depth + 1) a.1 a.2 = some expanded) :
    ∃ expanded', docs.expand depth b.1 b.2 = some expanded' := by
  induction hab with
  | single hmeets => exact expand_of_meets hmeets h
  | tail _ hmeets ih =>
    obtain ⟨expanded', h'⟩ := ih
    exact expand_of_meets hmeets (expand_succ h')

/-- The expansion of a node that is met in it never ends. -/
theorem expand_eq_none_of_transGen {a : Location × Yaml} (h : Relation.TransGen docs.Meets a a)
    (depth : Nat) : docs.expand depth a.1 a.2 = none := by
  induction depth with
  | zero => rfl
  | succ depth ih =>
    cases hexpand : docs.expand (depth + 1) a.1 a.2 with
    | none => rfl
    | some expanded =>
      obtain ⟨expanded', h'⟩ := expand_of_transGen h hexpand
      rw [ih] at h'
      cases h'

/-- A reference that stands in its own expansion is expanded for ever. -/
theorem Circular.endless {location : Location} {reference : String}
    (h : docs.Circular location reference) : docs.Endless location reference := by
  obtain ⟨target, node, htarget, hreach, hvisible⟩ := h
  intro depth
  rw [follow, htarget]
  have hcycle : Relation.TransGen docs.Meets target target :=
    Relation.TransGen.tail' hreach ⟨reference, hvisible, htarget⟩
  exact expand_eq_none_of_transGen hcycle depth

end Documents

end LinkedApi
