import LinkedApi.Proofs.Resolution.Attempts

/-!
# The first failure

Failures do not interfere. A reference that fails leaves null in its place, all the others are
attempted as if it had not, and each comes to the same whatever has been done before. The failures
are found in the order of the attempts, and the first of them is reported.
-/

namespace LinkedApi

open Expansion

variable {docs : Documents} {env : Location → Loaded}

/-! ## What attempts come to -/

mutual

/-- An attempt depends on the documents through the verdicts of what it leads to. -/
theorem Gives.congr {env' : Location → Loaded} : ∀ {a : Attempt} {expanded : Expanded}
    {inner : List Attempt}, Gives env a expanded inner →
    (∀ b ∈ a :: inner, b.verdict env = b.verdict env') → Gives env' a expanded inner
  | _, _, _, .fails h, hsame => .fails (hsame _ List.mem_cons_self ▸ h)
  | _, _, _, .stands h hnode, hsame =>
    .stands (hsame _ List.mem_cons_self ▸ h)
      (hnode.congr fun b hb => hsame b (List.mem_cons_of_mem _ hb))
termination_by structural _ _ _ h => h

theorem Unfolds.congr {env' : Location → Loaded} : ∀ {around : List String}
    {location : Location} {tree : Yaml} {expanded : Expanded} {attempts : List Attempt},
    Unfolds env around location tree expanded attempts →
    (∀ b ∈ attempts, b.verdict env = b.verdict env') →
    Unfolds env' around location tree expanded attempts
  | _, _, _, _, _, .node hgives hexpanded, hsame =>
    .node (fun r hr => (hgives r hr).congr fun b hb =>
      hsame b (List.mem_flatMap.mpr ⟨r, hr, hb⟩)) hexpanded
termination_by structural _ _ _ _ _ h => h

end

/-- A node becomes the same tree through the same attempts, whatever has been done before, and each
of the attempts is settled. -/
structure Attempted (docs : Documents) (around : List String) (place : Location × Yaml)
    (expanded : Expanded) (attempts : List Attempt) : Prop where
  unfolds : Unfolds docs.load around place.1 place.2 expanded attempts
  walk : ∀ root, docs.load place.1 = .ok root →
    ∀ depth, docs.nestingBound + 1 ≤ depth + around.length →
    ∀ p : Progress, p.Faithful docs → node docs depth around ⟨place.1, root⟩ place.2 p =
      (expanded.1, attempts.foldl (Attempt.note docs) p)
  settled : ∀ b ∈ attempts, ∃ given inner,
    Gives docs.load b given inner ∧ inner ⊆ attempts ∧ b.Settled docs given inner

/-- An attempt is settled if the node that its reference stands for is. -/
theorem Attempt.exists_settled {a : Attempt} (ha : a.location.Proper)
    (hnested : ∀ {target : Location × Yaml}, a.verdict docs.load = .ok target →
      ∃ expanded attempts, Attempted docs (a.key :: a.around) target expanded attempts) :
    ∃ expanded inner, Gives docs.load a expanded inner ∧ a.Settled docs expanded inner ∧
      ∀ b ∈ inner, ∃ given more,
        Gives docs.load b given more ∧ more ⊆ inner ∧ b.Settled docs given more := by
  cases hverdict : a.verdict docs.load with
  | error reason =>
    refine ⟨_, _, .fails hverdict, ?_, fun b hb => absurd hb List.not_mem_nil⟩
    intro root hroot depth _ p hp
    have hresolved := resolved_eq depth ha hroot hp
    rw [hverdict] at hresolved
    exact hresolved
  | ok target =>
    obtain ⟨expanded, attempts, hattempted⟩ := hnested hverdict
    refine ⟨expanded, attempts, .stands hverdict hattempted.unfolds, ?_, hattempted.settled⟩
    intro root hroot depth hdepth p hp
    have hresolved := resolved_eq depth ha hroot hp
    rw [hverdict] at hresolved
    obtain ⟨inner, hload, hresolved⟩ := hresolved
    rw [hresolved, List.foldl_cons]
    exact hattempted.walk inner hload depth (by rw [List.length_cons]; omega) _
      (note_loaded ha hp).1

/-- A node is attempted if each of its references is settled. -/
theorem exists_attempted {around : List String} {place : Location × Yaml}
    (hproper : place.1.Proper) (haround : around.length ≤ docs.nestingBound)
    (h : ∀ r ∈ place.2.visible, ∃ expanded inner,
      Gives docs.load ⟨around, place.1, r⟩ expanded inner ∧
      Attempt.Settled docs ⟨around, place.1, r⟩ expanded inner ∧
      ∀ b ∈ inner, ∃ given more,
        Gives docs.load b given more ∧ more ⊆ inner ∧ b.Settled docs given more) :
    ∃ expanded attempts, Attempted docs around place expanded attempts := by
  have hall (r : String) : ∃ expanded inner, r ∈ place.2.visible →
      Gives docs.load ⟨around, place.1, r⟩ expanded inner ∧
      Attempt.Settled docs ⟨around, place.1, r⟩ expanded inner ∧
      ∀ b ∈ inner, ∃ given more,
        Gives docs.load b given more ∧ more ⊆ inner ∧ b.Settled docs given more := by
    by_cases hr : r ∈ place.2.visible
    · obtain ⟨expanded, inner, hsettled⟩ := h r hr
      exact ⟨expanded, inner, fun _ => hsettled⟩
    · exact ⟨(.null, []), [], fun h => absurd h hr⟩
  choose value inner hvalue using hall
  obtain ⟨tree, htree⟩ := Yaml.substitute_total value place.2
  have hunfolds := Unfolds.node (fun r hr => (hvalue r hr).1) htree
  refine ⟨_, _, hunfolds, ?_, ?_⟩
  · intro root hroot depth hdepth p hp
    cases depth with
    | zero => omega
    | succ depth =>
      have hreference (r : String) (hr : r ∈ place.2.visible) (p : Progress)
          (hp : p.Faithful docs) :
          let ended := ((⟨around, place.1, r⟩ : Attempt) :: inner r).foldl (Attempt.note docs) p
          resolved docs depth around ⟨place.1, root⟩ r p = ((value r).1, ended) ∧
            ended.Faithful docs := by
        obtain ⟨hgives, hsettled, -⟩ := hvalue r hr
        refine ⟨hsettled root hroot depth (by dsimp only; omega) p hp, ?_⟩
        exact (Attempt.foldl_note_loaded
          (List.forall_mem_cons.mpr ⟨hproper, hgives.proper hproper⟩) hp).1
      rw [node_succ, (replace_settled place.2 hreference htree hp).1, List.foldl_flatMap]
  · intro b hb
    obtain ⟨r, hr, hb⟩ := List.mem_flatMap.mp hb
    obtain ⟨hgives, hsettled, hmore⟩ := hvalue r hr
    have hblock : inner r ⊆
        place.2.visible.flatMap fun r => (⟨around, place.1, r⟩ : Attempt) :: inner r :=
      fun c hc => List.mem_flatMap.mpr ⟨r, hr, List.mem_cons_of_mem _ hc⟩
    rcases List.mem_cons.mp hb with rfl | hb
    · exact ⟨value r, inner r, hgives, hblock, hsettled⟩
    · obtain ⟨given, more, hgiven, hmore, hsettled⟩ := hmore b hb
      exact ⟨given, more, hgiven, List.Subset.trans hmore hblock, hsettled⟩

/-- Every node that an expansion comes to is attempted. The keys around it are distinct, so that
there is always room for another. -/
theorem attempted_of_chain {start : Location} (hstart : start.Proper) {slack : Nat}
    {around : List String} {place : Location × Yaml} (hchain : docs.Chain start around place)
    (hslack : docs.nestingBound + 1 ≤ slack + around.length) :
    ∃ expanded attempts, Attempted docs around place expanded attempts := by
  induction slack generalizing around place with
  | zero =>
    have hlength := hchain.length_le
    omega
  | succ slack ih =>
    have hproper := hchain.proper hstart
    refine exists_attempted hproper hchain.length_le fun r hr => ?_
    refine Attempt.exists_settled hproper fun {target} hverdict => ?_
    have hnew := (Attempt.verdict_ok hverdict).1
    rw [Attempt.verdict_of_new hnew] at hverdict
    exact ih (hchain.step hr hnew hverdict) (by dsimp only [List.length_cons]; omega)

/-! ## Resolution -/

namespace Documents

theorem root_mem_asked (docs : Documents) (text : String) :
    .ofText text ∈ (docs.resolveTree text).asked := by
  obtain ⟨p, hp, hmem, -, hcases⟩ := docs.resolveTree_cases text
  cases hroot : docs.load (.ofText text) with
  | error cause =>
    rw [hroot] at hcases
    rw [hcases]
    exact List.mem_map_of_mem hmem
  | ok root =>
    rw [hroot] at hcases hmem
    have hended : Retraces docs docs.load p p
        (node docs docs.nestingBound [key (.ofText text) none] ⟨.ofText text, root⟩ root p) _ :=
      node_retraces (Location.proper_ofText text) root hp hmem
    rw [hcases _ (Nat.le_refl _)]
    exact List.mem_map_of_mem (hended.grows hmem)

theorem resolveTree_eq {text : String} {root : Yaml} (hload : docs.load (.ofText text) = .ok root) :
    let ended := document docs ⟨.ofText text, root⟩ ⟨[(.ofText text, .ok root)], []⟩
    docs.resolveTree text =
      ⟨resultOf (ended.1, ended.2.failures), ended.2.loaded.map (·.1)⟩ := by
  have hfirst : Expansion.load docs (.ofText text) .start =
      (.ok root, ⟨[(.ofText text, .ok root)], []⟩) := by
    rw [← hload]
    rfl
  rw [resolveTree]
  dsimp only
  rw [hfirst]
  rfl

/-- The first failure, if there is one. -/
theorem resultOf_eq_error {expanded : Expanded} {attempts : List Attempt}
    (h : expanded.2 = attempts.filterMap (·.failure? env)) (e : ResolveError) :
    resultOf expanded = .error e ↔ ∃ before a after reason, attempts = before ++ a :: after ∧
      (∀ b ∈ before, ∃ target, b.verdict env = .ok target) ∧ a.verdict env = .error reason ∧
      e = .unresolved ⟨a.reference, a.location.toString, reason⟩ := by
  have hnone (b : Attempt) : b.failure? env = none ↔ ∃ target, b.verdict env = .ok target := by
    unfold Attempt.failure?
    split <;> simp_all
  have hsome (a : Attempt) (u : UnresolvedReference) : a.failure? env = some u ↔
      ∃ reason, a.verdict env = .error reason ∧ a.failed reason = u := by
    unfold Attempt.failure?
    split <;> simp_all
  unfold resultOf
  rw [h]
  constructor
  · intro hresult
    split at hresult
    · next u more hfirst =>
      cases hresult
      obtain ⟨before, a, after, hsplit, hbefore, ha, -⟩ := List.filterMap_eq_cons_iff.mp hfirst
      obtain ⟨reason, hverdict, rfl⟩ := (hsome a u).mp ha
      exact ⟨before, a, after, reason, hsplit, fun b hb => (hnone b).mp (hbefore b hb), hverdict,
        rfl⟩
    · cases hresult
  · rintro ⟨before, a, after, reason, rfl, hbefore, hverdict, rfl⟩
    have hfirst : (before ++ a :: after).filterMap (·.failure? env) =
        a.failed reason :: after.filterMap (·.failure? env) :=
      List.filterMap_eq_cons_iff.mpr ⟨before, a, after, rfl, fun b hb => (hnone b).mpr (hbefore b hb),
        (hsome a _).mpr ⟨reason, hverdict, rfl⟩, rfl⟩
    rw [hfirst]
    rfl

/-- The references of a document and of what they stand for are attempted one after the other, from
left to right and each before those that it leads to. All are attempted, whether or not others have
failed, and the first that fails is reported. What an attempt gives and leads to is the same
whatever has been done before it: it depends on the reference, on the document it is in and on what
is being expanded around it. -/
theorem first_failure_reported {text : String} {root : Yaml} (hroot : env (.ofText text) = .ok root)
    (hasked : ∀ location ∈ (docs.resolveTree text).asked, docs.load location = env location) :
    ∃ expanded attempts,
      Unfolds env [key (.ofText text) none] (.ofText text) root expanded attempts ∧
      (docs.resolveTree text).result = resultOf expanded ∧
      document docs ⟨.ofText text, root⟩ ⟨[(.ofText text, .ok root)], []⟩ =
        (expanded.1, attempts.foldl (Attempt.note docs) ⟨[(.ofText text, .ok root)], []⟩) ∧
      (∀ e, (docs.resolveTree text).result = .error e ↔
        ∃ before a after reason, attempts = before ++ a :: after ∧
          (∀ b ∈ before, ∃ target, b.verdict env = .ok target) ∧ a.verdict env = .error reason ∧
          e = .unresolved ⟨a.reference, a.location.toString, reason⟩) ∧
      ∀ a ∈ attempts, ∃ given inner, Gives env a given inner ∧ inner ⊆ attempts ∧
        a.Settled docs given inner := by
  have hproper := Location.proper_ofText text
  have hload : docs.load (.ofText text) = .ok root :=
    (hasked _ (docs.root_mem_asked text)).trans hroot
  obtain ⟨expanded, attempts, hunfolds, hwalk, hsettled⟩ :=
    attempted_of_chain hproper (.root hload) (Nat.le_add_right _ _)
  let start : Progress := ⟨[(.ofText text, .ok root)], []⟩
  have hstart : start.Faithful docs := by
    intro entry hentry
    rw [List.mem_singleton.mp hentry]
    exact ⟨hproper, hload⟩
  have hdocument : document docs ⟨.ofText text, root⟩ start =
      (expanded.1, attempts.foldl (Attempt.note docs) start) :=
    hwalk root hload _ (Nat.le_refl _) start hstart
  have hsame : ∀ a ∈ attempts, a.verdict docs.load = a.verdict env := by
    intro a ha
    refine Attempt.verdict_congr fun hnew => hasked _ ?_
    rw [resolveTree_eq hload]
    dsimp only
    rw [hdocument]
    exact hunfolds.asked hproper hstart (List.mem_singleton_self _) a ha hnew
  have hunfolds' := hunfolds.congr hsame
  have hresult : (docs.resolveTree text).result = resultOf expanded := by
    rw [resolveTree_eq hload]
    dsimp only
    rw [hdocument, Attempt.foldl_note_failures, ← hunfolds.failures]
    rfl
  refine ⟨expanded, attempts, hunfolds', hresult, hdocument, ?_, ?_⟩
  · rw [hresult]
    exact resultOf_eq_error hunfolds'.failures
  · intro a ha
    obtain ⟨given, inner, hgives, hinner, hsettled⟩ := hsettled a ha
    refine ⟨given, inner, hgives.congr ?_, hinner, hsettled⟩
    exact List.forall_mem_cons.mpr ⟨hsame a ha, fun b hb => hsame b (hinner hb)⟩

def failingTree : Yaml :=
  .seq [.map [(.str "$ref", .str "part.yaml#/x")], .map [(.str "$ref", .str "part.yaml#/y")],
    .map [(.str "$ref", .str "#")], .map [(.str "$ref", .str "gone.yaml")]]

def failing : Documents := ofLoaded
  [(.file ⟨true, ["main.yaml"]⟩, .ok failingTree),
    (.file ⟨true, ["part.yaml"]⟩, .ok (.map [(.str "x", .int 2),
      (.str "y", .seq [.map [(.str "$ref", .str "#/z")], .map [(.str "$ref", .str "#/x")]])]))]

theorem first_failure_reported_of_failing :
    failing.load (.ofText "/main.yaml") = .ok failingTree ∧
    ((failing.resolveTree "/main.yaml").result.map fun _ => ()) =
      .error (.unresolved ⟨"#/z", "/part.yaml", .selectsNothing "/z"⟩) ∧
    ∃ expanded attempts,
      Unfolds failing.load [key (.ofText "/main.yaml") none] (.ofText "/main.yaml") failingTree
        expanded attempts ∧
      (failing.resolveTree "/main.yaml").result = resultOf expanded := by
  have hlocation : Location.ofText "/main.yaml" = .file ⟨true, ["main.yaml"]⟩ := by decide +kernel
  have hroot : failing.load (.ofText "/main.yaml") = .ok failingTree := by
    rw [hlocation]
    rfl
  obtain ⟨expanded, attempts, hunfolds, hresult, -⟩ := first_failure_reported hroot fun _ _ => rfl
  exact ⟨hroot, by decide +kernel, expanded, attempts, hunfolds, hresult⟩

end Documents

end LinkedApi
