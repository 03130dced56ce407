import LinkedApi.Proofs.Resolution.Nesting

/-!
# Resolution is plain expansion

Resolving a document loads every document once, and stops where a reference stands in the
expansion of what it stands for. It gives a tree exactly when the plain expansion of the document
ends without failures, and then it gives the same tree. Only references without an end are called
cycles.
-/

namespace LinkedApi

open Expansion Relation

variable {α β γ : Type} {docs : Documents}

namespace Expansion

/-! ## Loading once -/

/-- What has been loaded is what stands there. -/
def Progress.Faithful (docs : Documents) (p : Progress) : Prop :=
  ∀ entry ∈ p.loaded, entry.1.Proper ∧ docs.load entry.1 = entry.2

/-- A document that was loaded before is the same when it is loaded again. -/
theorem load_faithful {location : Location} (hlocation : location.Proper) {p : Progress}
    (hp : p.Faithful docs) :
    ∃ p', load docs location p = (docs.load location, p') ∧ p'.Faithful docs ∧
      p'.failures = p.failures := by
  unfold load
  cases hfound : p.loaded.find? (·.1.toString == location.toString) with
  | some entry =>
    obtain ⟨hproper, hload⟩ := hp entry (List.mem_of_find?_eq_some hfound)
    have htext : entry.1.toString = location.toString := by simpa using List.find?_some hfound
    have hsame := Location.toString_injective hproper hlocation htext
    exact ⟨p, by rw [← hsame, hload], hp, rfl⟩
  | none =>
    refine ⟨_, rfl, ?_, rfl⟩
    intro entry hentry
    rcases List.mem_append.mp hentry with hentry | hentry
    · exact hp entry hentry
    · rw [List.mem_singleton.mp hentry]
      exact ⟨hlocation, rfl⟩

/-- What a reference stands for is found in what its document really is. -/
theorem target_faithful {location : Location} (hlocation : location.Proper) {root : Yaml}
    (hroot : docs.load location = .ok root) (reference : String) {p : Progress}
    (hp : p.Faithful docs) :
    ∃ p', target docs ⟨location, root⟩ ((Reference.ofText reference).locationFrom location)
        (Reference.ofText reference) p =
          (docs.load ((Reference.ofText reference).locationFrom location), p') ∧
      p'.Faithful docs ∧ p'.failures = p.failures := by
  have hproper := Reference.proper_locationFrom hlocation (Reference.ofText reference)
  unfold target
  split
  · next hempty => exact ⟨p, by rw [Reference.locationFrom, if_pos hempty, hroot], hp, rfl⟩
  · exact load_faithful hproper hp

/-! ## Agreement with plain expansion -/

/-- What an expansion has come to, beside the plain one. Cycles that are found are genuine, and if
there are none, both give the same and fail at the same references. -/
structure Agrees (docs : Documents) (genuine : UnresolvedReference → Prop) (p : Progress)
    (ended : α × Progress) (plain : Option (α × List UnresolvedReference)) : Prop where
  faithful : ended.2.Faithful docs
  failures : ∃ found, ended.2.failures = p.failures ++ found ∧
    (∀ u ∈ found, u.reason = .cycle → genuine u) ∧
    ((∀ u ∈ found, u.reason ≠ .cycle) → plain = some (ended.1, found))

variable {genuine : UnresolvedReference → Prop} {p : Progress}

theorem Agrees.imp {genuine' : UnresolvedReference → Prop} {ended : α × Progress}
    {plain : Option (α × List UnresolvedReference)} (h : Agrees docs genuine p ended plain)
    (himp : ∀ u, genuine u → genuine' u) : Agrees docs genuine' p ended plain := by
  obtain ⟨hfaithful, found, hfound, hcycles, hplain⟩ := h
  exact ⟨hfaithful, found, hfound, fun u hu hreason => himp u (hcycles u hu hreason), hplain⟩

/-- Only the failures from before matter. -/
theorem Agrees.rebase {p' : Progress} {ended : α × Progress}
    {plain : Option (α × List UnresolvedReference)} (h : Agrees docs genuine p' ended plain)
    (hfailures : p'.failures = p.failures) : Agrees docs genuine p ended plain :=
  ⟨h.faithful, hfailures ▸ h.failures⟩

theorem agrees_pure (hp : p.Faithful docs) (a : α) :
    Agrees docs genuine p (a, p) (some (a, [])) :=
  ⟨hp, [], (List.append_nil _).symm, by simp, fun _ => rfl⟩

/-- What is found in a part is found in the whole. -/
theorem Agrees.map {a : α} {p' : Progress} {plain : Option (α × List UnresolvedReference)}
    (h : Agrees docs genuine p (a, p') plain) (build : α → β) :
    Agrees docs genuine p (build a, p') (do
      let (a, failures) ← plain
      return (build a, failures)) := by
  obtain ⟨hfaithful, found, hfound, hcycles, hplain⟩ := h
  exact ⟨hfaithful, found, hfound, hcycles, fun hnone => by rw [hplain hnone]; rfl⟩

/-- What is found in one part and then in another is found in the whole, in this order. -/
theorem Agrees.pair {a : α} {b : β} {p₁ p₂ : Progress}
    {plain₁ : Option (α × List UnresolvedReference)}
    {plain₂ : Option (β × List UnresolvedReference)} (h₁ : Agrees docs genuine p (a, p₁) plain₁)
    (h₂ : Agrees docs genuine p₁ (b, p₂) plain₂) (build : α → β → γ) :
    Agrees docs genuine p (build a b, p₂) (do
      let (a, first) ← plain₁
      let (b, more) ← plain₂
      return (build a b, first ++ more)) := by
  obtain ⟨-, first, hfirst, hcycles₁, hplain₁⟩ := h₁
  obtain ⟨hfaithful, more, hmore, hcycles₂, hplain₂⟩ := h₂
  refine ⟨hfaithful, first ++ more, ?_, ?_, ?_⟩
  · rw [hmore, hfirst, List.append_assoc]
  · intro u hu
    exact (List.mem_append.mp hu).elim (hcycles₁ u) (hcycles₂ u)
  · intro hnone
    rw [hplain₁ fun u hu => hnone u (List.mem_append_left _ hu),
      hplain₂ fun u hu => hnone u (List.mem_append_right _ hu)]
    rfl

theorem agrees_fail (hp : p.Faithful docs) {doc : Document} {reference : String}
    {reason : ReferenceFailure} {plain : Option Expanded}
    (hgenuine : reason = .cycle → genuine ⟨reference, doc.location.toString, reason⟩)
    (hplain : reason ≠ .cycle →
      plain = some (.null, [⟨reference, doc.location.toString, reason⟩])) :
    Agrees docs genuine p (fail doc reference reason p) plain := by
  refine ⟨hp, [⟨reference, doc.location.toString, reason⟩], rfl, ?_, ?_⟩
  · intro u hu hreason
    rw [List.mem_singleton.mp hu] at hreason ⊢
    exact hgenuine hreason
  · intro hnone
    exact hplain (hnone _ (List.mem_singleton_self _))

section Replacement

variable {expand : String → Progress → Yaml × Progress} {plain : String → Option Expanded}

mutual

/-- If the references of a tree are replaced as in plain expansion, so is the tree. -/
theorem replace_agrees : ∀ (tree : Yaml) {p : Progress}, p.Faithful docs →
    (∀ r ∈ tree.visible, ∀ {p : Progress}, p.Faithful docs →
      Agrees docs genuine p (expand r p) (plain r)) →
    Agrees docs genuine p (replace expand tree p) (tree.substitute plain)
  | .map entries, p, hp, h => by
    rw [Yaml.visible] at h
    rw [replace, Yaml.substitute]
    cases hwritten : Reference.written? entries with
    | some reference =>
      rw [hwritten] at h
      exact h reference (List.mem_singleton_self _) hp
    | none =>
      rw [hwritten] at h
      exact (replaceEntries_agrees entries hp h).map Yaml.map
  | .seq items, p, hp, h => by
    rw [Yaml.visible] at h
    rw [replace, Yaml.substitute]
    exact (replaceItems_agrees items hp h).map Yaml.seq
  | .tagged tag value, p, hp, h => by
    rw [Yaml.visible] at h
    rw [replace, Yaml.substitute]
    exact (replace_agrees value hp h).map (Yaml.tagged tag)
  | .null, p, hp, _ | .bool _, p, hp, _ | .int _, p, hp, _ | .float _, p, hp, _
  | .str _, p, hp, _ => by
    rw [replace, Yaml.substitute]
    · exact agrees_pure hp _
    all_goals nofun

/-- Items agree with the plain expansion when the references in them do. -/
theorem replaceItems_agrees : ∀ (items : List Yaml) {p : Progress}, p.Faithful docs →
    (∀ r ∈ Yaml.visibleItems items, ∀ {p : Progress}, p.Faithful docs →
      Agrees docs genuine p (expand r p) (plain r)) →
    Agrees docs genuine p (replaceItems expand items p) (Yaml.substituteItems plain items)
  | [], p, hp, _ => agrees_pure hp []
  | item :: rest, p, hp, h => by
    rw [Yaml.visibleItems, List.forall_mem_append] at h
    have hitem := replace_agrees item hp h.1
    have hrest := replaceItems_agrees rest hitem.faithful h.2
    rw [replaceItems, Yaml.substituteItems]
    exact hitem.pair hrest List.cons

theorem replaceEntries_agrees : ∀ (entries : List (Yaml × Yaml)) {p : Progress},
    p.Faithful docs →
    (∀ r ∈ Yaml.visibleEntries entries, ∀ {p : Progress}, p.Faithful docs →
      Agrees docs genuine p (expand r p) (plain r)) →
    Agrees docs genuine p (replaceEntries expand entries p)
      (Yaml.substituteEntries plain entries)
  | [], p, hp, _ => agrees_pure hp []
  | (key, value) :: rest, p, hp, h => by
    rw [Yaml.visibleEntries, List.forall_mem_append] at h
    have hvalue := replace_agrees value hp h.1
    have hrest := replaceEntries_agrees rest hvalue.faithful h.2
    rw [replaceEntries, Yaml.substituteEntries]
    exact hvalue.pair hrest fun value rest => (key, value) :: rest

end

end Replacement

/-! ## Whole expansions -/

/-- A failure of a reference that is met in the expansion of a node, and that stands in the
expansion of what it stands for itself. -/
def Genuine (docs : Documents) (start : Location × Yaml) (u : UnresolvedReference) : Prop :=
  ∃ place, ReflTransGen docs.Meets start place ∧ u.reference ∈ place.2.visible ∧
    place.1.toString = u.document ∧ docs.Circular place.1 u.reference

/-- What is put in the place of a reference, if `depth` more expansions may be nested. -/
def resolved (docs : Documents) (depth : Nat) (around : List String) (doc : Document)
    (reference : String) (p : Progress) : Yaml × Progress :=
  let r := Reference.ofText reference
  let location := r.locationFrom doc.location
  if around.contains (keyOf doc.location reference) then fail doc reference .cycle p
  else
    match target docs doc location r p with
    | (.error cause, p) => fail doc reference (.notLoaded cause) p
    | (.ok root, p) =>
      match selected root r.fragment with
      | .error reason => fail doc reference reason p
      | .ok start =>
        node docs depth (keyOf doc.location reference :: around) ⟨location, root⟩ start p

theorem node_succ (docs : Documents) (depth : Nat) (around : List String) (doc : Document) :
    node docs (depth + 1) around doc = replace (resolved docs depth around doc) := rfl

theorem selected_ne_cycle (root : Yaml) (fragment : Option String) :
    selected root fragment ≠ .error .cycle := by
  unfold selected
  split
  · nofun
  · split <;> nofun

/-- A reference that is not among those around it is followed as `dereference` says. -/
theorem resolved_of_new (depth : Nat) {around : List String} {location : Location} {root : Yaml}
    (hlocation : location.Proper) (hroot : docs.load location = .ok root) {reference : String}
    (hnew : keyOf location reference ∉ around) {p : Progress} (hp : p.Faithful docs) :
    ∃ p', p'.Faithful docs ∧ p'.failures = p.failures ∧
      match docs.dereference location reference with
      | .error reason =>
        reason ≠ .cycle ∧ resolved docs depth around ⟨location, root⟩ reference p =
          fail ⟨location, root⟩ reference reason p'
      | .ok target =>
        ∃ inner, docs.load target.1 = .ok inner ∧
          resolved docs depth around ⟨location, root⟩ reference p =
            node docs depth (keyOf location reference :: around) ⟨target.1, inner⟩ target.2 p' := by
  obtain ⟨p', htarget, hp', hfailures⟩ := target_faithful hlocation hroot reference hp
  refine ⟨p', hp', hfailures, ?_⟩
  unfold resolved Documents.dereference
  dsimp only
  rw [if_neg (by simpa using hnew), htarget]
  cases hload : docs.load ((Reference.ofText reference).locationFrom location) with
  | error cause => exact ⟨nofun, rfl⟩
  | ok inner =>
    dsimp only
    cases hselected : selected inner (Reference.ofText reference).fragment with
    | error reason =>
      refine ⟨?_, rfl⟩
      rintro rfl
      exact selected_ne_cycle _ _ hselected
    | ok start => exact ⟨inner, hload, rfl⟩

/-- A reference is replaced as in plain expansion, if the node that it stands for is. -/
theorem resolved_agrees {depth bound : Nat} {around : List String} {location : Location}
    {root : Yaml} (hlocation : location.Proper) (hroot : docs.load location = .ok root)
    {reference : String} {p : Progress} (hp : p.Faithful docs)
    (hcycle : keyOf location reference ∈ around →
      genuine ⟨reference, location.toString, .cycle⟩)
    (hnested : keyOf location reference ∉ around → ∀ {target : Location × Yaml},
      docs.dereference location reference = .ok target → ∀ {inner : Yaml},
      docs.load target.1 = .ok inner → ∀ {p : Progress}, p.Faithful docs →
      Agrees docs genuine p
        (node docs depth (keyOf location reference :: around) ⟨target.1, inner⟩ target.2 p)
        (docs.expand bound target.1 target.2)) :
    Agrees docs genuine p (resolved docs depth around ⟨location, root⟩ reference p)
      (docs.follow (docs.expand bound) location reference) := by
  by_cases haround : keyOf location reference ∈ around
  · have hfail : resolved docs depth around ⟨location, root⟩ reference p =
        fail ⟨location, root⟩ reference .cycle p := if_pos (by simpa using haround)
    rw [hfail]
    exact agrees_fail hp (fun _ => hcycle haround) (absurd rfl)
  · obtain ⟨p', hp', hfailures, hfollowed⟩ := resolved_of_new depth hlocation hroot haround hp
    rw [Documents.follow]
    cases hstands : docs.dereference location reference with
    | error reason =>
      rw [hstands] at hfollowed
      obtain ⟨hreason, heq⟩ := hfollowed
      rw [heq]
      exact (agrees_fail hp' (absurd · hreason) fun _ => rfl).rebase hfailures
    | ok target =>
      rw [hstands] at hfollowed
      obtain ⟨inner, hinner, heq⟩ := hfollowed
      rw [heq]
      exact (hnested haround hstands hinner hp').rebase hfailures

/-- An expansion without cycles agrees with the plain one, however deep it may be nested. -/
theorem node_agrees_of_proper {depth : Nat} {around : List String} {location : Location}
    {root : Yaml} (hlocation : location.Proper) (hroot : docs.load location = .ok root)
    (tree : Yaml) {p : Progress} (hp : p.Faithful docs) :
    Agrees docs (fun _ => True) p (node docs depth around ⟨location, root⟩ tree p)
      (docs.expand (depth + 1) location tree) := by
  induction depth generalizing around location root tree p with
  | zero =>
    -- every reference fails as a cycle, and a tree without references stays
    rw [node, Documents.expand]
    refine replace_agrees tree hp fun reference _ p hp => ?_
    exact agrees_fail hp (fun _ => trivial) (absurd rfl)
  | succ depth ih =>
    rw [node_succ, Documents.expand]
    refine replace_agrees tree hp fun reference _ p hp => ?_
    refine resolved_agrees hlocation hroot hp (fun _ => trivial) ?_
    intro _ target hstands inner hinner p hp
    obtain ⟨_, -, -, htarget⟩ := Documents.dereference_ok hstands
    have hproper : target.1.Proper := htarget ▸ Reference.proper_locationFrom hlocation _
    exact ih hproper hinner target.2 hp

/-- An expansion agrees with the plain one, if it may be nested as deep as there are keys left. -/
theorem node_agrees {start : Location} (hstart : start.Canonical) {depth : Nat}
    {around : List String} {place : Location × Yaml} (hchain : docs.Chain start around place)
    (hdepth : depth + around.length = docs.nestingBound + 1) {root : Yaml}
    (hroot : docs.load place.1 = .ok root) {p : Progress} (hp : p.Faithful docs) :
    Agrees docs (Genuine docs place) p (node docs depth around ⟨place.1, root⟩ place.2 p)
      (docs.expand depth place.1 place.2) := by
  induction depth generalizing around place root p with
  | zero =>
    have hlength := hchain.length_le
    omega
  | succ depth ih =>
    rw [node_succ, Documents.expand]
    refine replace_agrees place.2 hp fun reference hvisible p hp => ?_
    refine resolved_agrees (hchain.proper hstart.proper) hroot hp ?_ ?_
    · intro haround
      exact ⟨place, .refl, hvisible, rfl, hchain.circular hstart hvisible haround⟩
    · intro hnew target hstands inner hinner p hp
      have hmeets : docs.Meets place target := ⟨reference, hvisible, hstands⟩
      have hnested := ih (hchain.step hvisible hnew hstands)
        (by rw [List.length_cons]; omega) hinner hp
      refine hnested.imp ?_
      rintro u ⟨place', hreach, hgenuine⟩
      exact ⟨place', hreach.head hmeets, hgenuine⟩

end Expansion

/-! ## Resolution -/

namespace Documents

/-- A plain expansion that ends meets no reference that is endless. -/
theorem Expands.not_genuine (place : Location × Yaml) {expanded : Expanded}
    (h : docs.Expands place.1 place.2 expanded) (u : UnresolvedReference) :
    ¬Genuine docs place u := by
  rintro ⟨inner, hreach, hvisible, -, hcircular⟩
  obtain ⟨expanded', depth, hexpand⟩ := h.of_reflTransGen hreach
  cases depth with
  | zero => cases hexpand
  | succ depth =>
    obtain ⟨e, hfollow⟩ := Yaml.substitute_visible inner.2 hexpand u.reference hvisible
    rw [hcircular.endless depth] at hfollow
    cases hfollow

theorem start_faithful : Progress.start.Faithful docs := by
  intro entry hentry
  cases hentry

theorem resolveTree_of_not_loaded {text : String} (htext : '#' ∉ text.toList)
    {cause : LoadFailure} (hroot : docs.load (.ofText text) = .error cause) :
    (docs.resolveTree text).result = .error (.root (Location.ofText text).toString cause) := by
  obtain ⟨p, hload, -, -⟩ := load_faithful (Location.canonical_ofText htext).proper start_faithful
  rw [resolveTree, hload, hroot]

/-- The result of resolving what an expansion of the whole document has come to. -/
def resultOf (expanded : Expanded) : Except ResolveError Yaml :=
  match expanded.2 with
  | u :: _ => .error (.unresolved u)
  | [] => .ok expanded.1

/-- A tree that resolving gives is the plain expansion of the document. -/
theorem expands_of_resolveTree {text : String} {root tree : Yaml}
    (hroot : docs.load (.ofText text) = .ok root) (h : (docs.resolveTree text).result = .ok tree) :
    docs.Expands (.ofText text) root (tree, []) := by
  have hproper := Location.proper_ofText text
  obtain ⟨p, hload, hp, hfailures⟩ := load_faithful hproper start_faithful
  obtain ⟨-, found, hfound, -, hplain⟩ := node_agrees_of_proper hproper hroot root hp
  rw [resolveTree, hload, hroot] at h
  change resultOf ((document docs ⟨.ofText text, root⟩ p).1,
    (document docs ⟨.ofText text, root⟩ p).2.failures) = .ok tree at h
  rw [document, hfound, hfailures] at h
  cases found with
  | cons u more => cases h
  | nil =>
    cases h
    exact ⟨docs.nestingBound + 1, hplain (by simp)⟩

/-- Without cycles the result is that of the plain expansion; a cycle that is reported is genuine.
-/
theorem resolveTree_of_loaded {text : String} (htext : '#' ∉ text.toList) {root : Yaml}
    (hroot : docs.load (.ofText text) = .ok root) :
    ∃ expanded, (docs.resolveTree text).result = resultOf expanded ∧
      (∀ u ∈ expanded.2, u.reason = .cycle → Genuine docs (.ofText text, root) u) ∧
      ((∀ u ∈ expanded.2, u.reason ≠ .cycle) → docs.Expands (.ofText text) root expanded) := by
  have hcanonical := Location.canonical_ofText htext
  obtain ⟨p, hload, hp, hfailures⟩ := load_faithful hcanonical.proper start_faithful
  have hchain : docs.Chain (.ofText text) [key (.ofText text) none] (.ofText text, root) :=
    .root hroot
  obtain ⟨-, found, hfound, hcycles, hplain⟩ := node_agrees hcanonical hchain rfl hroot hp
  refine ⟨((document docs ⟨.ofText text, root⟩ p).1, found), ?_, hcycles, ?_⟩
  · have hended : (document docs ⟨.ofText text, root⟩ p).2.failures = found := by
      rw [document, hfound, hfailures]
      rfl
    rw [← hended, resolveTree, hload, hroot]
    rfl
  · intro hnone
    exact ⟨_, hplain hnone⟩

/-- When the plain expansion of a document ends, resolving gives its tree, or the first of its
failures. -/
theorem resolveTree_of_expands {text : String} (htext : '#' ∉ text.toList) {root : Yaml}
    (hroot : docs.load (.ofText text) = .ok root) {expanded : Expanded}
    (h : docs.Expands (.ofText text) root expanded) :
    (docs.resolveTree text).result = resultOf expanded := by
  obtain ⟨expanded', hresult, hcycles, hplain⟩ := resolveTree_of_loaded htext hroot
  have hends : docs.Expands (.ofText text) root expanded' := by
    apply hplain
    intro u hu hreason
    exact Expands.not_genuine (.ofText text, root) h u (hcycles u hu hreason)
  rw [hresult, hends.unique h]

/-- Resolving gives a tree exactly when the plain expansion of the document ends with this tree and
without failures. A cycle is reported only of a reference whose plain expansion never ends, since
it stands in the expansion of what it stands for. -/
theorem resolveTree_exact (docs : Documents) {text : String} (htext : '#' ∉ text.toList) :
    (∀ tree, (docs.resolveTree text).result = .ok tree ↔
      ∃ root, docs.load (.ofText text) = .ok root ∧
        docs.Expands (.ofText text) root (tree, [])) ∧
    ∀ u, (docs.resolveTree text).result = .error (.unresolved u) → u.reason = .cycle →
      ∃ location : Location, location.toString = u.document ∧
        docs.Circular location u.reference ∧ docs.Endless location u.reference := by
  cases hroot : docs.load (.ofText text) with
  | error cause =>
    have hresult := resolveTree_of_not_loaded htext hroot
    constructor
    · intro tree
      rw [hresult]
      constructor
      · nofun
      · rintro ⟨root, hloaded, -⟩
        cases hloaded
    · intro u hu
      rw [hresult] at hu
      cases hu
  | ok root =>
    obtain ⟨⟨tree', found⟩, hresult, hcycles, hplain⟩ := resolveTree_of_loaded htext hroot
    constructor
    · intro tree
      constructor
      · intro htree
        rw [hresult] at htree
        cases found with
        | cons u more => cases htree
        | nil =>
          cases htree
          exact ⟨root, rfl, hplain (by simp)⟩
      · rintro ⟨root', hsame, hends⟩
        cases hsame
        exact resolveTree_of_expands htext hroot hends
    · intro u hu hreason
      rw [hresult] at hu
      cases found with
      | nil => cases hu
      | cons first more =>
        cases hu
        obtain ⟨place, -, -, hdocument, hcircular⟩ := hcycles u List.mem_cons_self hreason
        exact ⟨place.1, hdocument, hcircular, hcircular.endless⟩

def single (path : Path) (root : Yaml) : Documents where
  load location := if location = .file path then .ok root else .error .notYaml
  loadable := [.file path]
  mem_loadable {location tree} h := by
    by_cases hlocation : location = .file path
    · exact List.mem_singleton.mpr hlocation
    · rw [if_neg hlocation] at h
      cases h

/-- A definition that is referred to twice, and a node that refers to what is around it. -/
def sharingTree (pointer : String) : Yaml :=
  .map [(.str "first", .map [(.str "$ref", .str "#/shared")]),
    (.str "second", .map [(.str "$ref", .str "#/shared")]),
    (.str "third", .map [(.str "$ref", .str pointer)]),
    (.str "shared", .seq [.int 1])]

theorem resolveTree_exact_of_sharing :
    ((single ⟨true, ["main.yaml"]⟩ (sharingTree "#/shared/0")).resolveTree "/main.yaml").result =
        .ok (.map [(.str "first", .seq [.int 1]), (.str "second", .seq [.int 1]),
          (.str "third", .int 1), (.str "shared", .seq [.int 1])]) ∧
      ∃ location : Location, location.toString = "/main.yaml" ∧
        (single ⟨true, ["main.yaml"]⟩ (sharingTree "")).Circular location "" ∧
        (single ⟨true, ["main.yaml"]⟩ (sharingTree "")).Endless location "" := by
  have htext : '#' ∉ "/main.yaml".toList := by decide
  have hmain : Location.ofText "/main.yaml" = .file ⟨true, ["main.yaml"]⟩ := by
    have hlocal : Location.isRemote "/main.yaml" = false := by
      simp [Location.isRemote]
    have hpath : Location.filePath "/main.yaml" = "/main.yaml" := by
      simp [Location.filePath]
    rw [Location.ofText, hlocal, hpath]
    rfl
  constructor
  · refine ((resolveTree_exact _ htext).1 _).mpr ⟨sharingTree "#/shared/0", ?_, 2, ?_⟩
    · rw [hmain]
      rfl
    · rw [hmain]
      rfl
  · refine (resolveTree_exact _ htext).2 ⟨"", "/main.yaml", .cycle⟩ ?_ rfl
    rw [resolveTree, hmain]
    rfl

end Documents

end LinkedApi
