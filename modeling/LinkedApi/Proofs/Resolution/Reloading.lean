import LinkedApi.Proofs.Resolution.ReferenceFree
import LinkedApi.Proofs.Resolution.Termination
import LinkedApi.Resolution.Gathering

/-!
# The documents that are kept

A document is loaded when it is first asked for, and what it gave is kept for every further
reference to it, be it a tree or a failure. Where each location always gives the same, this changes
nothing but the number of loads: an expansion that loads the document of every reference anew comes
to the same tree and to the same failures, and no location is asked for twice.
-/

namespace LinkedApi

open Expansion

variable {α β γ σ : Type} {docs : Documents} {env : Location → Loaded}

namespace Expansion

/-! ## Expansion without memory -/

/-- Loads a document, also when that was done before. -/
def reload (env : Location → Loaded) (location : Location) (p : Progress) : Loaded × Progress :=
  (env location, { p with loaded := p.loaded ++ [(location, env location)] })

theorem reload_eq {location : Location} {outcome : Loaded} (h : env location = outcome)
    (p : Progress) :
    reload env location p = (outcome, { p with loaded := p.loaded ++ [(location, outcome)] }) := by
  rw [reload, h]

/-- Expands a node of a document as `node` does, but loads the document of each reference anew, also
of one that is into its own document. -/
def reloading (env : Location → Loaded) :
    Nat → List String → Document → Yaml → Progress → Yaml × Progress
  | 0, _, doc => replace fun reference => fail doc reference .cycle
  | depth + 1, around, doc => replace fun reference p =>
    let r := Reference.ofText reference
    let location := r.locationFrom doc.location
    let key := key location r.fragment
    if around.contains key then fail doc reference .cycle p
    else
      match reload env location p with
      | (.error cause, p) => fail doc reference (.notLoaded cause) p
      | (.ok root, p) =>
        match selected root r.fragment with
        | .error reason => fail doc reference reason p
        | .ok start => reloading env depth (key :: around) ⟨location, root⟩ start p

/-! ## Loading once -/

/-- What has been loaded is what stands there, and nothing was loaded twice. -/
structure Progress.Orderly (docs : Documents) (p : Progress) : Prop where
  faithful : p.Faithful docs
  nodup : (p.loaded.map (·.1.toString)).Nodup

theorem orderly_start : Progress.start.Orderly docs :=
  ⟨Documents.start_faithful, List.nodup_nil⟩

/-- A document is loaded once, and then known. -/
theorem load_orderly {location : Location} (hlocation : location.Proper) {p : Progress}
    (hp : p.Orderly docs) :
    ∃ outcome p', load docs location p = (outcome, p') ∧ p'.Orderly docs ∧
      p.loaded ⊆ p'.loaded ∧ (location, outcome) ∈ p'.loaded ∧ p'.failures = p.failures := by
  obtain ⟨hfaithful, hnodup⟩ := hp
  unfold load
  cases hfound : p.loaded.find? (·.1.toString == location.toString) with
  | some entry =>
    have hmem := List.mem_of_find?_eq_some hfound
    have htext : entry.1.toString = location.toString := by simpa using List.find?_some hfound
    have hsame := Location.toString_injective (hfaithful entry hmem).1 hlocation htext
    exact ⟨entry.2, p, rfl, ⟨hfaithful, hnodup⟩, List.Subset.refl _, hsame ▸ hmem, rfl⟩
  | none =>
    refine ⟨docs.load location, _, rfl, ⟨?_, ?_⟩, List.subset_append_left _ _,
      List.mem_append_right _ (List.mem_singleton_self _), rfl⟩
    · intro entry hentry
      rcases List.mem_append.mp hentry with hentry | hentry
      · exact hfaithful entry hentry
      · rw [List.mem_singleton.mp hentry]
        exact ⟨hlocation, rfl⟩
    · have hnew : location.toString ∉ p.loaded.map (·.1.toString) := by
        intro htext
        obtain ⟨entry, hentry, htext⟩ := List.mem_map.mp htext
        exact List.find?_eq_none.mp hfound entry hentry (by simpa using htext)
      rw [List.map_append, List.map_singleton]
      exact hnodup.append (List.nodup_singleton _) (List.disjoint_singleton.mpr hnew)

/-- The document that a reference leads to, also the one the reference is in, is among those that
are kept. -/
theorem target_orderly {doc : Document} (hdoc : doc.location.Proper) (reference : String)
    {p : Progress} (hp : p.Orderly docs) (hkept : (doc.location, .ok doc.root) ∈ p.loaded) :
    ∃ outcome p', target docs doc ((Reference.ofText reference).locationFrom doc.location)
        (Reference.ofText reference) p = (outcome, p') ∧ p'.Orderly docs ∧
      p.loaded ⊆ p'.loaded ∧
      ((Reference.ofText reference).locationFrom doc.location, outcome) ∈ p'.loaded ∧
      p'.failures = p.failures := by
  have hproper := Reference.proper_locationFrom hdoc (Reference.ofText reference)
  unfold target
  split
  · next hempty =>
    refine ⟨.ok doc.root, p, rfl, hp, List.Subset.refl _, ?_, rfl⟩
    rw [Reference.locationFrom, if_pos hempty]
    exact hkept
  · exact load_orderly hproper hp

/-! ## The same with and without memory -/

/-- What an expansion has come to from `p`, beside what one without memory has come to from `q`. If
the documents that were kept are those of the environment, both give the same and fail at the same
references. -/
structure Retraces (docs : Documents) (env : Location → Loaded) (p q : Progress)
    (kept anew : α × Progress) : Prop where
  orderly : kept.2.Orderly docs
  grows : p.loaded ⊆ kept.2.loaded
  same : (∀ entry ∈ kept.2.loaded, env entry.1 = entry.2) → p.failures = q.failures →
    kept.1 = anew.1 ∧ kept.2.failures = anew.2.failures

variable {p q : Progress}

theorem retraces_pure (hp : p.Orderly docs) (a : α) : Retraces docs env p q (a, p) (a, q) :=
  ⟨hp, List.Subset.refl _, fun _ hfailures => ⟨rfl, hfailures⟩⟩

theorem Retraces.map {a a' : α} {p' q' : Progress} (h : Retraces docs env p q (a, p') (a', q'))
    (build : α → β) : Retraces docs env p q (build a, p') (build a', q') := by
  refine ⟨h.orderly, h.grows, fun hkept hfailures => ?_⟩
  obtain ⟨hvalue, hended⟩ := h.same hkept hfailures
  exact ⟨congrArg build hvalue, hended⟩

/-- Two walks one after the other retrace two others. -/
theorem Retraces.pair {a a' : α} {b b' : β} {p₁ p₂ q₁ q₂ : Progress}
    (h₁ : Retraces docs env p q (a, p₁) (a', q₁)) (h₂ : Retraces docs env p₁ q₁ (b, p₂) (b', q₂))
    (build : α → β → γ) : Retraces docs env p q (build a b, p₂) (build a' b', q₂) := by
  refine ⟨h₂.orderly, List.Subset.trans h₁.grows h₂.grows, fun hkept hfailures => ?_⟩
  obtain ⟨hfirst, hmiddle⟩ := h₁.same (fun entry hentry => hkept entry (h₂.grows hentry)) hfailures
  obtain ⟨hsecond, hended⟩ := h₂.same hkept hmiddle
  exact ⟨congrArg₂ build hfirst hsecond, hended⟩

theorem Progress.Orderly.fail (hp : p.Orderly docs) (doc : Document) (reference : String)
    (reason : ReferenceFailure) : (fail doc reference reason p).2.Orderly docs :=
  ⟨hp.faithful, hp.nodup⟩

theorem retraces_fail (hp : p.Orderly docs) (doc : Document) (reference : String)
    (reason : ReferenceFailure) :
    Retraces docs env p q (fail doc reference reason p) (fail doc reference reason q) := by
  refine ⟨hp.fail doc reference reason, List.Subset.refl _, fun _ hfailures => ⟨rfl, ?_⟩⟩
  rw [fail, fail, hfailures]

/-- A reference leads to a document that was kept. What the environment gives there matters only if
it is this document. -/
theorem Retraces.of_kept {p' q' : Progress} {kept anew anew' : α × Progress}
    {entry : Location × Loaded} (h : Retraces docs env p' q' kept anew')
    (hgrows : p.loaded ⊆ p'.loaded) (hfailures : p'.failures = p.failures)
    (hfailures' : q'.failures = q.failures) (hmem : entry ∈ p'.loaded)
    (hanew : env entry.1 = entry.2 → anew = anew') : Retraces docs env p q kept anew := by
  refine ⟨h.orderly, List.Subset.trans hgrows h.grows, fun hsame hstart => ?_⟩
  rw [hanew (hsame entry (h.grows hmem))]
  exact h.same hsame (by rw [hfailures, hfailures', hstart])

section Replacement

variable {expand expand' : String → Progress → Yaml × Progress} {entry : Location × Loaded}

mutual

/-- If the references of a tree are replaced in the same way with and without memory, so is the
tree. A document that is kept stays so. -/
theorem replace_retraces (h : ∀ (r : String) {p q : Progress}, p.Orderly docs →
      entry ∈ p.loaded → Retraces docs env p q (expand r p) (expand' r q)) :
    ∀ (tree : Yaml) {p q : Progress}, p.Orderly docs → entry ∈ p.loaded →
      Retraces docs env p q (replace expand tree p) (replace expand' tree q)
  | .map entries, p, q, hp, hkept => by
    rw [replace, replace]
    cases Reference.written? entries with
    | some reference => exact h reference hp hkept
    | none => exact (replaceEntries_retraces h entries hp hkept).map Yaml.map
  | .seq items, p, q, hp, hkept => by
    rw [replace, replace]
    exact (replaceItems_retraces h items hp hkept).map Yaml.seq
  | .tagged tag value, p, q, hp, hkept => by
    rw [replace, replace]
    exact (replace_retraces h value hp hkept).map (Yaml.tagged tag)
  | .null, p, q, hp, _ | .bool _, p, q, hp, _ | .int _, p, q, hp, _ | .float _, p, q, hp, _
  | .str _, p, q, hp, _ => by
    rw [replace, replace]
    · exact retraces_pure hp _
    all_goals nofun

/-- Items are retraced when the references in them are. -/
theorem replaceItems_retraces (h : ∀ (r : String) {p q : Progress}, p.Orderly docs →
      entry ∈ p.loaded → Retraces docs env p q (expand r p) (expand' r q)) :
    ∀ (items : List Yaml) {p q : Progress}, p.Orderly docs → entry ∈ p.loaded →
      Retraces docs env p q (replaceItems expand items p) (replaceItems expand' items q)
  | [], p, q, hp, _ => retraces_pure hp []
  | item :: rest, p, q, hp, hkept => by
    have hitem := replace_retraces h item (q := q) hp hkept
    have hrest := replaceItems_retraces h rest
      (q := (replace expand' item q).2) hitem.orderly (hitem.grows hkept)
    rw [replaceItems, replaceItems]
    exact hitem.pair hrest List.cons

theorem replaceEntries_retraces (h : ∀ (r : String) {p q : Progress}, p.Orderly docs →
      entry ∈ p.loaded → Retraces docs env p q (expand r p) (expand' r q)) :
    ∀ (entries : List (Yaml × Yaml)) {p q : Progress}, p.Orderly docs → entry ∈ p.loaded →
      Retraces docs env p q (replaceEntries expand entries p) (replaceEntries expand' entries q)
  | [], p, q, hp, _ => retraces_pure hp []
  | (key, value) :: rest, p, q, hp, hkept => by
    have hvalue := replace_retraces h value (q := q) hp hkept
    have hrest := replaceEntries_retraces h rest
      (q := (replace expand' value q).2) hvalue.orderly (hvalue.grows hkept)
    rw [replaceEntries, replaceEntries]
    exact hvalue.pair hrest fun value rest => (key, value) :: rest

end

end Replacement

/-- What is put in the place of a reference without memory. -/
def reread (env : Location → Loaded) (depth : Nat) (around : List String) (doc : Document)
    (reference : String) (q : Progress) : Yaml × Progress :=
  let r := Reference.ofText reference
  let location := r.locationFrom doc.location
  if around.contains (keyOf doc.location reference) then fail doc reference .cycle q
  else
    match reload env location q with
    | (.error cause, q) => fail doc reference (.notLoaded cause) q
    | (.ok root, q) =>
      match selected root r.fragment with
      | .error reason => fail doc reference reason q
      | .ok start =>
        reloading env depth (keyOf doc.location reference :: around) ⟨location, root⟩ start q

theorem reloading_succ (env : Location → Loaded) (depth : Nat) (around : List String)
    (doc : Document) :
    reloading env (depth + 1) around doc = replace (reread env depth around doc) := rfl

/-- A reference is replaced in the same way with and without memory, if the node that it stands for
is. -/
theorem resolved_retraces {depth : Nat} {around : List String} {doc : Document}
    (hdoc : doc.location.Proper) (reference : String) (hp : p.Orderly docs)
    (hkept : (doc.location, .ok doc.root) ∈ p.loaded)
    (hnested : ∀ (root start : Yaml) {p q : Progress}, p.Orderly docs →
      ((Reference.ofText reference).locationFrom doc.location, .ok root) ∈ p.loaded →
      Retraces docs env p q
        (node docs depth (keyOf doc.location reference :: around)
          ⟨(Reference.ofText reference).locationFrom doc.location, root⟩ start p)
        (reloading env depth (keyOf doc.location reference :: around)
          ⟨(Reference.ofText reference).locationFrom doc.location, root⟩ start q)) :
    Retraces docs env p q (resolved docs depth around doc reference p)
      (reread env depth around doc reference q) := by
  obtain ⟨outcome, p', htarget, hp', hgrows, hmem, hfailures⟩ :=
    target_orderly hdoc reference hp hkept
  unfold resolved reread
  dsimp only
  by_cases haround : around.contains (keyOf doc.location reference) = true
  · rw [if_pos haround, if_pos haround]
    exact retraces_fail hp doc reference .cycle
  · rw [if_neg haround, if_neg haround, htarget]
    let location := (Reference.ofText reference).locationFrom doc.location
    let q' : Progress := { q with loaded := q.loaded ++ [(location, outcome)] }
    cases outcome with
    | error cause =>
      have hfail : Retraces docs env p' q' _ _ := retraces_fail hp' doc reference (.notLoaded cause)
      refine hfail.of_kept hgrows hfailures rfl hmem fun henv => ?_
      rw [reload_eq henv]
    | ok root =>
      dsimp only
      cases hselected : selected root (Reference.ofText reference).fragment with
      | error reason =>
        have hfail : Retraces docs env p' q' _ _ := retraces_fail hp' doc reference reason
        refine hfail.of_kept hgrows hfailures rfl hmem fun henv => ?_
        rw [reload_eq henv]
        dsimp only
        rw [hselected]
      | ok start =>
        have hinner : Retraces docs env p' q' _ _ := hnested root start hp' hmem
        refine hinner.of_kept hgrows hfailures rfl hmem fun henv => ?_
        rw [reload_eq henv]
        dsimp only
        rw [hselected]

/-- With the same bound on nesting, an expansion comes to the same with and without memory. -/
theorem node_retraces {depth : Nat} {around : List String} {doc : Document}
    (hdoc : doc.location.Proper) (tree : Yaml) (hp : p.Orderly docs)
    (hkept : (doc.location, .ok doc.root) ∈ p.loaded) :
    Retraces docs env p q (node docs depth around doc tree p)
      (reloading env depth around doc tree q) := by
  induction depth generalizing around doc tree p q with
  | zero =>
    rw [node, reloading]
    refine replace_retraces ?_ tree hp hkept
    intro reference p q hp _
    exact retraces_fail hp doc reference .cycle
  | succ depth ih =>
    rw [node_succ, reloading_succ]
    refine replace_retraces ?_ tree hp hkept
    intro reference p q hp hkept
    refine resolved_retraces hdoc reference hp hkept ?_
    intro root start p q hp hkept
    exact ih (Reference.proper_locationFrom hdoc _) start hp hkept

end Expansion

/-! ## Resolution -/

namespace Documents

/-- The tree of the document at a location, with every reference replaced, when the document of each
reference is loaded anew and expansions are nested at most `depth` deep. -/
def resolveReloading (env : Location → Loaded) (depth : Nat) (text : String) :
    Except ResolveError Yaml :=
  let location := Location.ofText text
  match reload env location .start with
  | (.error cause, _) => .error (.root location.toString cause)
  | (.ok root, p) =>
    let (tree, p) := reloading env depth [key location none] ⟨location, root⟩ root p
    resultOf (tree, p.failures)

/-- What resolving a document does: it keeps what it loads, and stops at the first failure to load
or goes on to expand the document. -/
theorem resolveTree_cases (docs : Documents) (text : String) :
    ∃ p, p.Orderly docs ∧ (Location.ofText text, docs.load (.ofText text)) ∈ p.loaded ∧
      p.failures = [] ∧
      match docs.load (.ofText text) with
      | .error cause => docs.resolveTree text =
          ⟨.error (.root (Location.ofText text).toString cause), p.loaded.map (·.1)⟩
      | .ok root => ∀ depth, docs.nestingBound ≤ depth →
          let ended := node docs depth [key (.ofText text) none] ⟨.ofText text, root⟩ root p
          docs.resolveTree text =
            ⟨resultOf (ended.1, ended.2.failures), ended.2.loaded.map (·.1)⟩ := by
  have hproper := Location.proper_ofText text
  have hstart : Progress.start.Orderly docs := orderly_start
  obtain ⟨outcome, p, hload, hp, -, hmem, hfailures⟩ := load_orderly hproper hstart
  have houtcome := (hp.faithful _ hmem).2
  dsimp only at houtcome
  refine ⟨p, hp, houtcome ▸ hmem, hfailures, ?_⟩
  rw [houtcome]
  cases outcome with
  | error cause =>
    dsimp only
    rw [resolveTree]
    dsimp only
    rw [hload]
  | ok root =>
    intro depth hdepth
    have hends (depth : Nat) (hdepth : docs.nestingBound ≤ depth) :
        Ends docs [key (.ofText text) none] ⟨.ofText text, root⟩ root p
          (node docs depth [key (.ofText text) none] ⟨.ofText text, root⟩ root p) :=
      (node_ends hproper (.root houtcome) (Nat.succ_le_succ hdepth) houtcome hp.faithful).1
    rw [(hends depth hdepth).unique (hends docs.nestingBound (Nat.le_refl _)), resolveTree]
    dsimp only
    rw [hload]
    rfl

/-- What resolving asks for is what was kept at its end. -/
theorem asked_resolveTree (docs : Documents) (text : String) :
    ∃ p : Progress, p.Orderly docs ∧ (docs.resolveTree text).asked = p.loaded.map (·.1) := by
  obtain ⟨p, hp, hmem, -, hcases⟩ := docs.resolveTree_cases text
  cases hroot : docs.load (.ofText text) with
  | error cause =>
    rw [hroot] at hcases
    exact ⟨p, hp, by rw [hcases]⟩
  | ok root =>
    rw [hroot] at hcases hmem
    have hended : Retraces docs docs.load p p
        (node docs docs.nestingBound [key (.ofText text) none] ⟨.ofText text, root⟩ root p) _ :=
      node_retraces (Location.proper_ofText text) root hp hmem
    exact ⟨_, hended.orderly, by rw [hcases _ (Nat.le_refl _)]⟩

/-- Resolving gives what it gives without memory, if what it asks for is what the environment
gives. -/
theorem resolveTree_eq_resolveReloading {text : String}
    (h : ∀ location ∈ (docs.resolveTree text).asked, docs.load location = env location)
    {depth : Nat} (hdepth : docs.nestingBound ≤ depth) :
    (docs.resolveTree text).result = resolveReloading env depth text := by
  obtain ⟨p, hp, hmem, hfailures, hcases⟩ := docs.resolveTree_cases text
  have henv {p : Progress} (hp : p.Orderly docs)
      (hasked : (docs.resolveTree text).asked = p.loaded.map (·.1)) :
      ∀ entry ∈ p.loaded, env entry.1 = entry.2 := by
    intro entry hentry
    rw [← h entry.1 (hasked ▸ List.mem_map_of_mem hentry)]
    exact (hp.faithful entry hentry).2
  rw [resolveReloading]
  dsimp only
  cases hroot : docs.load (.ofText text) with
  | error cause =>
    rw [hroot] at hcases hmem
    rw [reload_eq (henv hp (by rw [hcases]) _ hmem), hcases]
  | ok root =>
    rw [hroot] at hcases hmem
    have hended : Retraces docs env p ⟨[(.ofText text, .ok root)], []⟩
        (node docs depth [key (.ofText text) none] ⟨.ofText text, root⟩ root p) _ :=
      node_retraces (Location.proper_ofText text) root hp hmem
    have hsame := henv hended.orderly (by rw [hcases depth hdepth])
    obtain ⟨htree, hfound⟩ := hended.same hsame hfailures
    rw [reload_eq (hsame _ (hended.grows hmem)), hcases depth hdepth, htree, hfound]
    rfl

/-! ## Requests -/

/-- A way to load documents that answers each location always in the same way, and a record of what
was asked for. -/
def Answers (load : Location → StateM σ Loaded) (reads : σ → List String)
    (env : Location → Loaded) : Prop :=
  ∀ location s, (load location s).1 = env location ∧
    reads (load location s).2 = reads s ++ [location.toString]

theorem known?_eq_some {known : List (Location × Loaded)} {location : Location}
    {outcome : Loaded} (h : known? known location = some outcome) :
    (location, outcome) ∈ known := by
  obtain ⟨entry, hentry, rfl⟩ := Option.map_eq_some_iff.mp h
  have hlocation : entry.1 = location := by simpa using List.find?_some hentry
  exact hlocation ▸ List.mem_of_find?_eq_some hentry

/-- What is known is loaded as it is known. -/
theorem ofLoaded_load {known : List (Location × Loaded)} {location : Location} {outcome : Loaded}
    (h : known? known location = some outcome) : (ofLoaded known).load location = outcome := by
  change (known? known location).getD _ = outcome
  rw [h, Option.getD_some]

theorem known?_eq_none {known : List (Location × Loaded)} {location : Location}
    (h : known? known location = none) : location ∉ known.map (·.1) := by
  intro hmem
  obtain ⟨entry, hentry, rfl⟩ := List.mem_map.mp hmem
  exact List.find?_eq_none.mp (Option.map_eq_none_iff.mp h) entry hentry (by simp)

theorem proper_of_asked {text : String} {location : Location}
    (h : location ∈ (docs.resolveTree text).asked) : location.Proper := by
  obtain ⟨p, hp, hasked⟩ := docs.asked_resolveTree text
  rw [hasked] at h
  obtain ⟨entry, hentry, rfl⟩ := List.mem_map.mp h
  exact (hp.faithful entry hentry).1

/-- What has been gathered is as the environment gives it, and nothing was asked for twice. -/
structure Gathered (env : Location → Loaded) (known : List (Location × Loaded)) : Prop where
  proper : ∀ entry ∈ known, entry.1.Proper
  answers : ∀ entry ∈ known, env entry.1 = entry.2
  nodup : (known.map (·.1.toString)).Nodup

section Gathered

variable {known : List (Location × Loaded)} {location : Location}

theorem gathered_nil : Gathered env [] := ⟨nofun, nofun, List.nodup_nil⟩

/-- A location that is not known is not known under its text either. -/
theorem Gathered.toString_not_mem (h : Gathered env known) (hlocation : location.Proper)
    (hunknown : known? known location = none) :
    location.toString ∉ known.map (·.1.toString) := by
  intro hmem
  obtain ⟨entry, hentry, htext⟩ := List.mem_map.mp hmem
  have hsame := Location.toString_injective (h.proper entry hentry) hlocation htext
  exact known?_eq_none hunknown (hsame ▸ List.mem_map_of_mem hentry)

/-- One document more is gathered, if it was not known. -/
theorem Gathered.add (h : Gathered env known) (hlocation : location.Proper)
    (hunknown : known? known location = none) :
    Gathered env (known ++ [(location, env location)]) := by
  refine ⟨?_, ?_, ?_⟩
  · exact List.forall_mem_append.mpr ⟨h.proper, List.forall_mem_singleton.mpr hlocation⟩
  · exact List.forall_mem_append.mpr ⟨h.answers, List.forall_mem_singleton.mpr rfl⟩
  · rw [List.map_append, List.map_singleton]
    exact h.nodup.append (List.nodup_singleton _)
      (List.disjoint_singleton.mpr (h.toString_not_mem hlocation hunknown))

theorem Gathered.load (h : Gathered env known) (hknown : known? known location ≠ none) :
    (ofLoaded known).load location = env location := by
  obtain ⟨outcome, houtcome⟩ := Option.ne_none_iff_exists'.mp hknown
  rw [h.answers _ (known?_eq_some houtcome)]
  exact ofLoaded_load houtcome

end Gathered

/-- Gathering asks for nothing that is known, and for nothing twice. When it stops before its limit,
everything that resolving asks for is as the environment gives it. -/
theorem gather_reads {load : Location → StateM σ Loaded} {reads : σ → List String}
    (hload : Answers load reads env) (text : String) (limit : Nat)
    (known : List (Location × Loaded)) (s : σ) (h : Gathered env known) :
    ∃ docs s' asked, gather load text limit known s = (docs, s') ∧
      reads s' = reads s ++ asked ∧ (known.map (·.1.toString) ++ asked).Nodup ∧
      (asked.length < limit →
        ∀ location ∈ (docs.resolveTree text).asked, docs.load location = env location) := by
  induction limit generalizing known s with
  | zero =>
    refine ⟨ofLoaded known, s, [], rfl, (List.append_nil _).symm, ?_, nofun⟩
    rw [List.append_nil]
    exact h.nodup
  | succ limit ih =>
    rw [gather]
    cases hnext : ((ofLoaded known).resolveTree text).asked.find?
        fun location => (known? known location).isNone with
    | none =>
      refine ⟨ofLoaded known, s, [], rfl, (List.append_nil _).symm, ?_, fun _ location hasked => ?_⟩
      · rw [List.append_nil]
        exact h.nodup
      · have hknown := List.find?_eq_none.mp hnext location hasked
        exact h.load (by simpa using hknown)
    | some location =>
      have hlocation := proper_of_asked (List.mem_of_find?_eq_some hnext)
      have hunknown : known? known location = none := by simpa using List.find?_some hnext
      obtain ⟨hanswer, hreads⟩ := hload location s
      obtain ⟨docs, s', asked, hgather, hreads', hnodup', hagree⟩ :=
        ih (known ++ [(location, env location)]) (load location s).2 (h.add hlocation hunknown)
      refine ⟨docs, s', location.toString :: asked, ?_, ?_, ?_, ?_⟩
      · rw [← hgather, ← hanswer]
        rfl
      · rw [hreads', hreads, List.append_assoc]
        rfl
      · rw [List.map_append, List.map_singleton, List.append_assoc] at hnodup'
        exact hnodup'
      · intro hlength
        exact hagree (Nat.lt_of_succ_lt_succ hlength)

/-- Where each location always answers in the same way, resolving with the documents that are kept
gives the same as loading the document of each reference anew, and asks for no location twice, not
even for one that failed. Gathering the documents asks for no location twice either. -/
theorem cache_transparent {load : Location → StateM σ Loaded} {reads : σ → List String}
    (hload : Answers load reads env) (text : String) :
    (∀ docs : Documents,
      (∀ location ∈ (docs.resolveTree text).asked, docs.load location = env location) →
        ((docs.resolveTree text).asked.map Location.toString).Nodup ∧
        ∀ depth, docs.nestingBound ≤ depth →
          (docs.resolveTree text).result = resolveReloading env depth text) ∧
    ∀ limit s, ∃ docs s' asked, gather load text limit [] s = (docs, s') ∧
      reads s' = reads s ++ asked ∧ asked.Nodup ∧
      (asked.length < limit →
        ∀ location ∈ (docs.resolveTree text).asked, docs.load location = env location) := by
  constructor
  · intro docs hagree
    obtain ⟨p, hp, hasked⟩ := docs.asked_resolveTree text
    refine ⟨?_, fun depth hdepth => resolveTree_eq_resolveReloading hagree hdepth⟩
    rw [hasked, List.map_map]
    exact hp.nodup
  · intro limit s
    exact gather_reads hload text limit [] s gathered_nil

def noting (env : Location → Loaded) (location : Location) : StateM (List String) Loaded := do
  modify (· ++ [location.toString])
  return env location

def repeating : Documents := ofLoaded
  [(.file ⟨true, ["main.yaml"]⟩, .ok (.seq [.map [(.str "$ref", .str "part.yaml#/x")],
      .map [(.str "$ref", .str "gone.yaml")], .map [(.str "$ref", .str "part.yaml#/x")],
      .map [(.str "$ref", .str "gone.yaml")]])),
    (.file ⟨true, ["part.yaml"]⟩, .ok (.map [(.str "x", .int 2)]))]

theorem cache_transparent_of_repeating :
    Answers (noting repeating.load) id repeating.load ∧
      (repeating.resolveTree "/main.yaml").asked.map Location.toString =
        ["/main.yaml", "/part.yaml", "/gone.yaml"] ∧
      ((repeating.resolveTree "/main.yaml").asked.map Location.toString).Nodup ∧
      (repeating.resolveTree "/main.yaml").result =
        resolveReloading repeating.load repeating.nestingBound "/main.yaml" ∧
      ∃ docs s' asked, gather (noting repeating.load) "/main.yaml" 4 [] [] = (docs, s') ∧
        s' = [] ++ asked ∧ asked.Nodup ∧ (asked.length < 4 →
          ∀ location ∈ (docs.resolveTree "/main.yaml").asked,
            docs.load location = repeating.load location) := by
  have hload : Answers (noting repeating.load) id repeating.load := fun _ _ => ⟨rfl, rfl⟩
  obtain ⟨hresult, hgather⟩ := cache_transparent hload "/main.yaml"
  obtain ⟨hnodup, hsame⟩ := hresult repeating fun _ _ => rfl
  exact ⟨hload, by decide +kernel, hnodup, hsame _ (Nat.le_refl _), hgather 4 []⟩

end Documents

end LinkedApi
