import LinkedApi.Proofs.Resolution.Reloading

/-!
# Attempts

An expansion attempts every reference that it meets, from left to right and each before those in
what it stands for. Which attempts are made is described by rules in which an attempt depends on the
reference, on the document it is in and on what is being expanded around it. Beside this stands what
an attempt leaves behind: a document that was asked for, and perhaps a failure.
-/

namespace LinkedApi

open Expansion

variable {docs : Documents} {env : Location → Loaded}

/-- A reference where an expansion meets it. -/
structure Attempt where
  /-- The keys of what is being expanded around the reference. -/
  around : List String
  /-- The location of the document the reference is in. -/
  location : Location
  reference : String

namespace Attempt

def target (a : Attempt) : Location := (Reference.ofText a.reference).locationFrom a.location

/-- The key of what the reference stands for. -/
def key (a : Attempt) : String := keyOf a.location a.reference

/-- The node that the reference stands for, with the location of its document. -/
def verdict (env : Location → Loaded) (a : Attempt) :
    Except ReferenceFailure (Location × Yaml) :=
  if a.key ∈ a.around then .error .cycle
  else
    match env a.target with
    | .error cause => .error (.notLoaded cause)
    | .ok root =>
      (selected root (Reference.ofText a.reference).fragment).map fun node => (a.target, node)

def failed (a : Attempt) (reason : ReferenceFailure) : UnresolvedReference :=
  ⟨a.reference, a.location.toString, reason⟩

def failure? (env : Location → Loaded) (a : Attempt) : Option UnresolvedReference :=
  match a.verdict env with
  | .ok _ => none
  | .error reason => some (a.failed reason)

/-- What one attempt adds to what has been done: a document is asked for, unless the reference is
into its own document or is found to be a cycle, and a failure is noted. -/
def note (docs : Documents) (p : Progress) (a : Attempt) : Progress :=
  let asked :=
    if a.key ∈ a.around ∨ (Reference.ofText a.reference).target.isEmpty then p
    else (load docs a.target p).2
  { asked with failures := asked.failures ++ (a.failure? docs.load).toList }

end Attempt

mutual

/-- An attempt puts a tree in the place of the reference, with the failures in it, and leads to
further attempts. -/
inductive Gives (env : Location → Loaded) : Attempt → Expanded → List Attempt → Prop where
  | fails {a : Attempt} {reason : ReferenceFailure} (h : a.verdict env = .error reason) :
    Gives env a (.null, [a.failed reason]) []
  | stands {a : Attempt} {target : Location × Yaml} {expanded : Expanded} {inner : List Attempt}
    (h : a.verdict env = .ok target)
    (hnode : Unfolds env (a.key :: a.around) target.1 target.2 expanded inner) :
    Gives env a expanded inner

/-- A node of a document becomes a tree, with the failures in it, when its references are attempted
from left to right, each before those that it leads to. -/
inductive Unfolds (env : Location → Loaded) :
    List String → Location → Yaml → Expanded → List Attempt → Prop where
  | node {around : List String} {location : Location} {tree : Yaml} {expanded : Expanded}
    {value : String → Expanded} {inner : String → List Attempt}
    (hgives : ∀ r ∈ tree.visible, Gives env ⟨around, location, r⟩ (value r) (inner r))
    (hexpanded : tree.substitute (fun r => some (value r)) = some expanded) :
    Unfolds env around location tree expanded
      (tree.visible.flatMap fun r => ⟨around, location, r⟩ :: inner r)

end

/-! ## Failures -/

namespace Yaml

variable (f : String → Expanded)

mutual

/-- When something is put in the place of every reference, the failures are those of the references
in their order. -/
theorem substitute_total : ∀ tree : Yaml, ∃ tree',
    tree.substitute (fun r => some (f r)) = some (tree', tree.visible.flatMap fun r => (f r).2)
  | .map entries => by
    rw [substitute, visible]
    cases Reference.written? entries with
    | some reference => exact ⟨(f reference).1, by simp⟩
    | none =>
      obtain ⟨entries', hentries⟩ := substituteEntries_total entries
      exact ⟨.map entries', by rw [hentries]; rfl⟩
  | .seq items => by
    rw [substitute, visible]
    obtain ⟨items', hitems⟩ := substituteItems_total items
    exact ⟨.seq items', by rw [hitems]; rfl⟩
  | .tagged tag value => by
    rw [substitute, visible]
    obtain ⟨value', hvalue⟩ := substitute_total value
    exact ⟨.tagged tag value', by rw [hvalue]; rfl⟩
  | .null | .bool _ | .int _ | .float _ | .str _ => by
    rw [substitute, visible]
    · exact ⟨_, rfl⟩
    all_goals nofun

theorem substituteItems_total : ∀ items : List Yaml, ∃ items',
    substituteItems (fun r => some (f r)) items =
      some (items', (visibleItems items).flatMap fun r => (f r).2)
  | [] => ⟨[], rfl⟩
  | item :: rest => by
    obtain ⟨item', hitem⟩ := substitute_total item
    obtain ⟨rest', hrest⟩ := substituteItems_total rest
    exact ⟨item' :: rest', by
      rw [substituteItems, hitem, hrest, visibleItems, List.flatMap_append]; rfl⟩

theorem substituteEntries_total : ∀ entries : List (Yaml × Yaml), ∃ entries',
    substituteEntries (fun r => some (f r)) entries =
      some (entries', (visibleEntries entries).flatMap fun r => (f r).2)
  | [] => ⟨[], rfl⟩
  | (key, value) :: rest => by
    obtain ⟨value', hvalue⟩ := substitute_total value
    obtain ⟨rest', hrest⟩ := substituteEntries_total rest
    exact ⟨(key, value') :: rest', by
      rw [substituteEntries, hvalue, hrest, visibleEntries, List.flatMap_append]; rfl⟩

end

end Yaml

mutual

/-- The failures in what an attempt gives are its own and those of the attempts it leads to. -/
theorem Gives.failures : ∀ {a : Attempt} {expanded : Expanded} {inner : List Attempt},
    Gives env a expanded inner → expanded.2 = (a :: inner).filterMap (·.failure? env)
  | _, _, _, .fails h => by
    simp [Attempt.failure?, h]
  | _, _, _, .stands h hnode => by
    rw [List.filterMap_cons_none (by simp [Attempt.failure?, h])]
    exact hnode.failures
termination_by structural _ _ _ h => h

/-- The failures are those of the attempts, in their order. -/
theorem Unfolds.failures : ∀ {around : List String} {location : Location} {tree : Yaml}
    {expanded : Expanded} {attempts : List Attempt},
    Unfolds env around location tree expanded attempts →
    expanded.2 = attempts.filterMap (·.failure? env)
  | _, _, tree, _, _, @Unfolds.node _ around location _ _ value inner hgives hexpanded => by
    obtain ⟨tree', htotal⟩ := Yaml.substitute_total value tree
    rw [hexpanded] at htotal
    rw [Option.some.inj htotal, List.filterMap_flatMap]
    apply List.flatMap_congr
    intro r hr
    exact (hgives r hr).failures
termination_by structural _ _ _ _ _ h => h

end

/-! ## Walks -/

namespace Expansion

section Replacement

variable {expand : String → Progress → Yaml × Progress} {P : Progress → Prop}
  {value : String → Expanded} {effect : Progress → String → Progress}

mutual

/-- If what is put in the place of a reference does not depend on what has been done before, neither
does what a tree becomes, and all its references have their effects in their order. -/
theorem replace_settled : ∀ (tree : Yaml) {expanded : Expanded},
    (∀ r ∈ tree.visible, ∀ p, P p → expand r p = ((value r).1, effect p r) ∧ P (effect p r)) →
    tree.substitute (fun r => some (value r)) = some expanded → ∀ {p : Progress}, P p →
    replace expand tree p = (expanded.1, tree.visible.foldl effect p) ∧
      P (tree.visible.foldl effect p)
  | .map entries, _, h, hexpanded, p, hp => by
    rw [Yaml.visible] at h ⊢
    rw [Yaml.substitute] at hexpanded
    rw [replace]
    cases hwritten : Reference.written? entries with
    | some reference =>
      rw [hwritten] at h hexpanded
      cases hexpanded
      exact h reference (List.mem_singleton_self _) p hp
    | none =>
      rw [hwritten] at h hexpanded
      obtain ⟨found, hfound, hexpanded⟩ := Option.bind_eq_some_iff.mp hexpanded
      cases hexpanded
      obtain ⟨hreplace, hended⟩ := replaceEntries_settled entries h hfound hp
      dsimp only
      rw [hreplace]
      exact ⟨rfl, hended⟩
  | .seq items, _, h, hexpanded, p, hp => by
    rw [Yaml.visible] at h ⊢
    obtain ⟨found, hfound, hexpanded⟩ := Option.bind_eq_some_iff.mp hexpanded
    cases hexpanded
    obtain ⟨hreplace, hended⟩ := replaceItems_settled items h hfound hp
    rw [replace, hreplace]
    exact ⟨rfl, hended⟩
  | .tagged tag value, _, h, hexpanded, p, hp => by
    rw [Yaml.visible] at h ⊢
    obtain ⟨found, hfound, hexpanded⟩ := Option.bind_eq_some_iff.mp hexpanded
    cases hexpanded
    obtain ⟨hreplace, hended⟩ := replace_settled value h hfound hp
    rw [replace, hreplace]
    exact ⟨rfl, hended⟩
  | .null, _, _, hexpanded, p, hp | .bool _, _, _, hexpanded, p, hp
  | .int _, _, _, hexpanded, p, hp | .float _, _, _, hexpanded, p, hp
  | .str _, _, _, hexpanded, p, hp => by
    rw [Yaml.substitute] at hexpanded
    · cases hexpanded
      rw [replace, Yaml.visible]
      · exact ⟨rfl, hp⟩
      all_goals nofun
    all_goals nofun

theorem replaceItems_settled : ∀ (items : List Yaml)
    {expanded : List Yaml × List UnresolvedReference},
    (∀ r ∈ Yaml.visibleItems items, ∀ p, P p →
      expand r p = ((value r).1, effect p r) ∧ P (effect p r)) →
    Yaml.substituteItems (fun r => some (value r)) items = some expanded →
    ∀ {p : Progress}, P p →
    replaceItems expand items p = (expanded.1, (Yaml.visibleItems items).foldl effect p) ∧
      P ((Yaml.visibleItems items).foldl effect p)
  | [], _, _, hexpanded, _, hp => by
    cases hexpanded
    exact ⟨rfl, hp⟩
  | item :: rest, _, h, hexpanded, p, hp => by
    rw [Yaml.visibleItems, List.forall_mem_append] at h
    rw [Yaml.substituteItems] at hexpanded
    obtain ⟨first, hfirst, hexpanded⟩ := Option.bind_eq_some_iff.mp hexpanded
    obtain ⟨more, hmore, hexpanded⟩ := Option.bind_eq_some_iff.mp hexpanded
    cases hexpanded
    obtain ⟨hitem, hmiddle⟩ := replace_settled item h.1 hfirst hp
    obtain ⟨hrest, hended⟩ := replaceItems_settled rest h.2 hmore hmiddle
    rw [replaceItems, Yaml.visibleItems, List.foldl_append, hitem]
    dsimp only
    rw [hrest]
    exact ⟨rfl, hended⟩

theorem replaceEntries_settled : ∀ (entries : List (Yaml × Yaml))
    {expanded : List (Yaml × Yaml) × List UnresolvedReference},
    (∀ r ∈ Yaml.visibleEntries entries, ∀ p, P p →
      expand r p = ((value r).1, effect p r) ∧ P (effect p r)) →
    Yaml.substituteEntries (fun r => some (value r)) entries = some expanded →
    ∀ {p : Progress}, P p →
    replaceEntries expand entries p = (expanded.1, (Yaml.visibleEntries entries).foldl effect p) ∧
      P ((Yaml.visibleEntries entries).foldl effect p)
  | [], _, _, hexpanded, _, hp => by
    cases hexpanded
    exact ⟨rfl, hp⟩
  | (key, value) :: rest, _, h, hexpanded, p, hp => by
    rw [Yaml.visibleEntries, List.forall_mem_append] at h
    rw [Yaml.substituteEntries] at hexpanded
    obtain ⟨first, hfirst, hexpanded⟩ := Option.bind_eq_some_iff.mp hexpanded
    obtain ⟨more, hmore, hexpanded⟩ := Option.bind_eq_some_iff.mp hexpanded
    cases hexpanded
    obtain ⟨hvalue, hmiddle⟩ := replace_settled value h.1 hfirst hp
    obtain ⟨hrest, hended⟩ := replaceEntries_settled rest h.2 hmore hmiddle
    rw [replaceEntries, Yaml.visibleEntries, List.foldl_append, hvalue]
    dsimp only
    rw [hrest]
    exact ⟨rfl, hended⟩

end

end Replacement

/-- The document that a reference names is kept, beside what was kept before. -/
theorem target_loaded (doc : Document) {location : Location} (hlocation : location.Proper)
    (r : Reference) {p : Progress} (hp : p.Faithful docs) :
    let asked := (target docs doc location r p).2
    asked.Faithful docs ∧ p.loaded ⊆ asked.loaded ∧
      (r.target.isEmpty = false → location ∈ asked.loaded.map (·.1)) := by
  dsimp only
  unfold target
  split
  · next hempty => exact ⟨hp, List.Subset.refl _, fun h => by rw [hempty] at h; cases h⟩
  · obtain ⟨p', hload, hp', -⟩ := load_faithful hlocation hp
    refine ⟨by rw [hload]; exact hp', ?_⟩
    unfold load
    cases hfound : p.loaded.find? (·.1.toString == location.toString) with
    | some entry =>
      have hmem := List.mem_of_find?_eq_some hfound
      have htext : entry.1.toString = location.toString := by simpa using List.find?_some hfound
      have hsame := Location.toString_injective (hp entry hmem).1 hlocation htext
      exact ⟨List.Subset.refl _, fun _ => hsame ▸ List.mem_map_of_mem hmem⟩
    | none =>
      refine ⟨List.subset_append_left _ _, fun _ => ?_⟩
      rw [List.map_append]
      exact List.mem_append_right _ (List.mem_singleton_self _)

end Expansion

namespace Attempt

theorem verdict_of_cycle {a : Attempt} (h : a.key ∈ a.around) : a.verdict env = .error .cycle :=
  if_pos h

/-- A reference that is not being expanded already stands for what its document has there. -/
theorem verdict_of_new {a : Attempt} (h : a.key ∉ a.around) :
    a.verdict docs.load = docs.dereference a.location a.reference := by
  rw [verdict, if_neg h]
  rfl

theorem verdict_ok {a : Attempt} {target : Location × Yaml} (h : a.verdict env = .ok target) :
    a.key ∉ a.around ∧ target.1 = a.target := by
  unfold verdict at h
  split at h
  · cases h
  · next hnew =>
    refine ⟨hnew, ?_⟩
    split at h
    · cases h
    · next root hroot =>
      cases hselected : selected root (Reference.ofText a.reference).fragment with
      | error reason =>
        rw [hselected] at h
        cases h
      | ok node =>
        rw [hselected] at h
        cases h
        rfl

theorem proper_of_verdict {a : Attempt} {target : Location × Yaml} (h : a.verdict env = .ok target)
    (ha : a.location.Proper) : target.1.Proper :=
  (verdict_ok h).2 ▸ Reference.proper_locationFrom ha _

/-- An attempt depends only on the document that its reference names. -/
theorem verdict_congr {env' : Location → Loaded} {a : Attempt}
    (h : a.key ∉ a.around → env a.target = env' a.target) : a.verdict env = a.verdict env' := by
  unfold verdict
  split
  · rfl
  · next hnew => rw [h hnew]

theorem note_of_cycle {a : Attempt} (h : a.key ∈ a.around) (p : Progress) :
    a.note docs p = { p with failures := p.failures ++ [a.failed .cycle] } := by
  simp [note, failure?, verdict_of_cycle h, h]

theorem note_of_new {a : Attempt} (h : a.key ∉ a.around) (root : Yaml) (p : Progress) :
    let asked := (Expansion.target docs ⟨a.location, root⟩ a.target (.ofText a.reference) p).2
    a.note docs p = { asked with failures := asked.failures ++ (a.failure? docs.load).toList } := by
  dsimp only
  rw [note, Expansion.target]
  simp only [h, false_or]
  split <;> rfl

/-- An attempt leaves every document as it is. One that is not a cycle asks for the document that
the reference names, unless this is the document the reference is in. -/
theorem note_loaded {a : Attempt} (ha : a.location.Proper) {p : Progress} (hp : p.Faithful docs) :
    (a.note docs p).Faithful docs ∧ p.loaded ⊆ (a.note docs p).loaded ∧
      (a.key ∉ a.around → a.location ∈ p.loaded.map (·.1) →
        a.target ∈ (a.note docs p).loaded.map (·.1)) := by
  by_cases haround : a.key ∈ a.around
  · rw [note_of_cycle haround]
    exact ⟨hp, List.Subset.refl _, absurd haround⟩
  · have hproper : a.target.Proper := Reference.proper_locationFrom ha _
    obtain ⟨hfaithful, hkept, hasked⟩ :=
      target_loaded ⟨a.location, .null⟩ hproper (.ofText a.reference) hp
    rw [note_of_new haround .null]
    refine ⟨hfaithful, hkept, fun _ hlocation => ?_⟩
    cases hempty : (Reference.ofText a.reference).target.isEmpty with
    | false => exact hasked hempty
    | true =>
      have hown : a.target = a.location := if_pos hempty
      exact (congrArg (· ∈ _) hown).mpr (List.map_subset _ hkept hlocation)

/-- What is put in the place of a reference is null if its attempt fails, and otherwise what the
node it stands for becomes. -/
theorem resolved_eq (depth : Nat) {a : Attempt} (ha : a.location.Proper) {root : Yaml}
    (hroot : docs.load a.location = .ok root) {p : Progress} (hp : p.Faithful docs) :
    match a.verdict docs.load with
    | .error _ => resolved docs depth a.around ⟨a.location, root⟩ a.reference p =
        (.null, a.note docs p)
    | .ok target => ∃ inner, docs.load target.1 = .ok inner ∧
        resolved docs depth a.around ⟨a.location, root⟩ a.reference p =
          node docs depth (a.key :: a.around) ⟨target.1, inner⟩ target.2 (a.note docs p) := by
  by_cases haround : a.key ∈ a.around
  · rw [verdict_of_cycle haround, note_of_cycle haround]
    exact if_pos (List.contains_iff_mem.mpr haround)
  · obtain ⟨p', htarget, -, hfailures⟩ := target_faithful ha hroot a.reference hp
    have hnote : a.note docs p =
        { p' with failures := p'.failures ++ (a.failure? docs.load).toList } := by
      rw [note_of_new haround root, target, htarget]
    have hnew : ¬a.around.contains (keyOf a.location a.reference) = true :=
      mt List.contains_iff_mem.mp haround
    rw [hnote, failure?, verdict_of_new haround, Documents.dereference]
    unfold resolved
    dsimp only
    rw [if_neg hnew, htarget]
    cases hload : docs.load ((Reference.ofText a.reference).locationFrom a.location) with
    | error cause => rfl
    | ok inner =>
      dsimp only
      cases hselected : selected inner (Reference.ofText a.reference).fragment with
      | error reason => rfl
      | ok start =>
        refine ⟨inner, hload, ?_⟩
        change _ = node docs depth _ _ _ { p' with failures := p'.failures ++ [] }
        rw [List.append_nil]
        rfl

@[simp]
theorem note_failures (a : Attempt) (p : Progress) :
    (a.note docs p).failures = p.failures ++ (a.failure? docs.load).toList := by
  have hload : (load docs a.target p).2.failures = p.failures := by
    unfold load
    split <;> rfl
  rw [note]
  split
  · rfl
  · rw [← hload]

@[simp]
theorem foldl_note_failures (attempts : List Attempt) (p : Progress) :
    (attempts.foldl (note docs) p).failures =
      p.failures ++ attempts.filterMap (·.failure? docs.load) := by
  induction attempts generalizing p with
  | nil => simp
  | cons a rest ih =>
    rw [List.foldl_cons, ih, note_failures, List.append_assoc]
    cases hfailure : a.failure? docs.load with
    | none => rw [List.filterMap_cons_none hfailure]; rfl
    | some failure => rw [List.filterMap_cons_some hfailure]; rfl

/-- Whatever has been done before, an attempt puts the same in the place of the reference and leads
to the same attempts. -/
def Settled (docs : Documents) (a : Attempt) (expanded : Expanded) (inner : List Attempt) : Prop :=
  ∀ root, docs.load a.location = .ok root → ∀ depth, docs.nestingBound ≤ depth + a.around.length →
    ∀ p : Progress, p.Faithful docs →
      resolved docs depth a.around ⟨a.location, root⟩ a.reference p =
        (expanded.1, (a :: inner).foldl (note docs) p)

end Attempt

/-! ## What is asked for -/

mutual

theorem Gives.proper : ∀ {a : Attempt} {expanded : Expanded} {inner : List Attempt},
    Gives env a expanded inner → a.location.Proper → ∀ b ∈ inner, b.location.Proper
  | _, _, _, .fails _, _ => nofun
  | _, _, _, .stands h hnode, ha => hnode.proper (Attempt.proper_of_verdict h ha)
termination_by structural _ _ _ h => h

theorem Unfolds.proper : ∀ {around : List String} {location : Location} {tree : Yaml}
    {expanded : Expanded} {attempts : List Attempt},
    Unfolds env around location tree expanded attempts → location.Proper →
    ∀ b ∈ attempts, b.location.Proper
  | _, _, _, _, _, .node hgives _, hlocation => by
    intro b hb
    obtain ⟨r, hr, hb⟩ := List.mem_flatMap.mp hb
    rcases List.mem_cons.mp hb with rfl | hb
    · exact hlocation
    · exact (hgives r hr).proper hlocation b hb
termination_by structural _ _ _ _ _ h => h

end

/-- What is loaded for attempts is what stands there, and nothing that was loaded is lost. -/
theorem Attempt.foldl_note_loaded : ∀ {attempts : List Attempt} {p : Progress},
    (∀ a ∈ attempts, a.location.Proper) → p.Faithful docs →
    (attempts.foldl (note docs) p).Faithful docs ∧
      p.loaded ⊆ (attempts.foldl (note docs) p).loaded
  | [], _, _, hp => ⟨hp, List.Subset.refl _⟩
  | a :: rest, p, hproper, hp => by
    rw [List.forall_mem_cons] at hproper
    obtain ⟨hnoted, hkept, -⟩ := note_loaded hproper.1 hp
    obtain ⟨hended, hrest⟩ := foldl_note_loaded hproper.2 hnoted
    exact ⟨hended, List.Subset.trans hkept hrest⟩

mutual

/-- The documents that the attempts depend on are kept at the end. -/
theorem Gives.asked : ∀ {a : Attempt} {expanded : Expanded} {inner : List Attempt},
    Gives env a expanded inner → a.location.Proper → ∀ {p : Progress}, p.Faithful docs →
    a.location ∈ p.loaded.map (·.1) → ∀ b ∈ a :: inner, b.key ∉ b.around →
    b.target ∈ ((a :: inner).foldl (Attempt.note docs) p).loaded.map (·.1)
  | a, _, _, .fails _, ha, p, hp, hlocation => by
    rw [List.forall_mem_singleton]
    intro hnew
    exact (Attempt.note_loaded ha hp).2.2 hnew hlocation
  | a, _, _, .stands h hnode, ha, p, hp, hlocation => by
    obtain ⟨hnew, htarget⟩ := Attempt.verdict_ok h
    obtain ⟨hnoted, -, hasked⟩ := Attempt.note_loaded ha hp
    have hproper := Attempt.proper_of_verdict h ha
    obtain ⟨-, hkept⟩ := Attempt.foldl_note_loaded (hnode.proper hproper) hnoted
    rw [List.forall_mem_cons, List.foldl_cons]
    refine ⟨fun _ => List.map_subset _ hkept (hasked hnew hlocation), ?_⟩
    exact hnode.asked hproper hnoted (htarget ▸ hasked hnew hlocation)
termination_by structural _ _ _ h => h

/-- Each document that an attempt needs has been asked for. -/
theorem Unfolds.asked : ∀ {around : List String} {location : Location} {tree : Yaml}
    {expanded : Expanded} {attempts : List Attempt},
    Unfolds env around location tree expanded attempts → location.Proper →
    ∀ {p : Progress}, p.Faithful docs → location ∈ p.loaded.map (·.1) →
    ∀ b ∈ attempts, b.key ∉ b.around →
      b.target ∈ (attempts.foldl (Attempt.note docs) p).loaded.map (·.1)
  | around, location, tree, _, _, @Unfolds.node _ _ _ _ _ _ inner hgives _, hproper, p, hp,
    hlocation => by
    intro b hb hnew
    obtain ⟨r, hr, hb⟩ := List.mem_flatMap.mp hb
    have hblock (r' : String) (hr' : r' ∈ tree.visible) :
        ∀ c ∈ (⟨around, location, r'⟩ : Attempt) :: inner r', c.location.Proper :=
      List.forall_mem_cons.mpr ⟨hproper, (hgives r' hr').proper hproper⟩
    obtain ⟨before, after, hsplit⟩ := List.append_of_mem hr
    rw [hsplit] at hblock ⊢
    rw [List.flatMap_append, List.flatMap_cons, List.foldl_append, List.foldl_append]
    rw [List.forall_mem_append, List.forall_mem_cons] at hblock
    obtain ⟨hbefore, hblock, hafter⟩ := hblock
    -- what is kept before the reference and at it is kept after it
    obtain ⟨hp₁, hkept₁⟩ := Attempt.foldl_note_loaded (List.forall_mem_flatMap.mpr hbefore) hp
    obtain ⟨hp₂, -⟩ := Attempt.foldl_note_loaded hblock hp₁
    obtain ⟨-, hkept₃⟩ := Attempt.foldl_note_loaded (List.forall_mem_flatMap.mpr hafter) hp₂
    exact List.map_subset _ hkept₃
      ((hgives r hr).asked hproper hp₁ (List.map_subset _ hkept₁ hlocation) b hb hnew)
termination_by structural _ _ _ _ _ h => h

end

end LinkedApi
