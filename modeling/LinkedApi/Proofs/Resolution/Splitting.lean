import LinkedApi.Proofs.Resolution.Beside
import LinkedApi.Proofs.Resolution.Pointer
import LinkedApi.Proofs.Resolution.ReferenceFree
import LinkedApi.Resolution.Gathering

/-!
# Splitting a document

Parts of a document may be moved into a second document beside it, each under a key of its own or
under the key of an equal part, and replaced by references. Resolving what is left gives the whole
document back, whatever the keys are.
-/

namespace LinkedApi

open Expansion

/-- Which parts of a tree are moved, and the key of each. A position is the list of the numbers of
the children on the way to it. What is said of positions inside a part that is moved plays no
role. -/
abbrev Choice := List Nat → Option String

/-- The choice for what stands under a child. -/
def Choice.under (choice : Choice) (child : Nat) : Choice :=
  fun position => choice (child :: position)

variable {choice : Choice} {expand : String → Progress → Yaml × Progress}

namespace Yaml

/-! ## Cutting a tree -/

def referenceTo (key : String) : String := "frag.yaml#" ++ Pointer.ofKey key

def stub (key : String) : Yaml := .map [(.str "$ref", .str (referenceTo key))]

mutual

/-- The tree with a reference in the place of each part that is moved. -/
def cut : Yaml → Choice → Yaml
  | .map entries, choice => (choice []).elim (.map (cutEntries entries choice 0)) stub
  | .seq items, choice => (choice []).elim (.seq (cutItems items choice 0)) stub
  | .tagged tag value, choice => (choice []).elim (.tagged tag (cut value (choice.under 0))) stub
  | scalar, choice => (choice []).elim scalar stub

def cutItems : List Yaml → Choice → Nat → List Yaml
  | [], _, _ => []
  | item :: rest, choice, child =>
    cut item (choice.under child) :: cutItems rest choice (child + 1)

def cutEntries : List (Yaml × Yaml) → Choice → Nat → List (Yaml × Yaml)
  | [], _, _ => []
  | (key, value) :: rest, choice, child =>
    (key, cut value (choice.under child)) :: cutEntries rest choice (child + 1)

end

mutual

/-- The parts that are moved, with their keys, in the order of the text. -/
def moved : Yaml → Choice → List (String × Yaml)
  | .map entries, choice =>
    (choice []).elim (movedEntries entries choice 0) fun key => [(key, .map entries)]
  | .seq items, choice =>
    (choice []).elim (movedItems items choice 0) fun key => [(key, .seq items)]
  | .tagged tag value, choice =>
    (choice []).elim (moved value (choice.under 0)) fun key => [(key, .tagged tag value)]
  | scalar, choice => (choice []).elim [] fun key => [(key, scalar)]

def movedItems : List Yaml → Choice → Nat → List (String × Yaml)
  | [], _, _ => []
  | item :: rest, choice, child =>
    moved item (choice.under child) ++ movedItems rest choice (child + 1)

def movedEntries : List (Yaml × Yaml) → Choice → Nat → List (String × Yaml)
  | [], _, _ => []
  | (_, value) :: rest, choice, child =>
    moved value (choice.under child) ++ movedEntries rest choice (child + 1)

end

def collect : List (String × Yaml) → List (Yaml × Yaml)
  | [] => []
  | (key, part) :: rest =>
    if (lookup? (collect rest) key).isSome then collect rest
    else (.str key, part) :: collect rest

theorem mem_of_lookup?_collect {parts : List (String × Yaml)} {key : String} {part : Yaml}
    (h : lookup? (collect parts) key = some part) : (key, part) ∈ parts := by
  induction parts with
  | nil => cases h
  | cons first rest ih =>
    rw [collect] at h
    split at h
    · exact List.mem_cons_of_mem _ (ih h)
    · rw [lookup?] at h
      split at h
      · next hkey =>
        cases h
        rw [← hkey]
        exact List.mem_cons_self
      · exact List.mem_cons_of_mem _ (ih h)

theorem isSome_lookup?_collect {parts : List (String × Yaml)} {key : String} {part : Yaml}
    (h : (key, part) ∈ parts) : (lookup? (collect parts) key).isSome := by
  induction parts with
  | nil => cases h
  | cons first rest ih =>
    rw [collect]
    rcases List.mem_cons.mp h with rfl | h
    · split
      · next hthere => exact hthere
      · rw [lookup?, if_pos rfl]
        rfl
    · split
      · exact ih h
      · rw [lookup?]
        split
        · rfl
        · exact ih h

/-- Each part is found under its key, if only equal parts share one. -/
theorem lookup?_collect {parts : List (String × Yaml)}
    (hshared : ∀ one ∈ parts, ∀ other ∈ parts, one.1 = other.1 → one.2 = other.2)
    {part : String × Yaml} (h : part ∈ parts) : lookup? (collect parts) part.1 = some part.2 := by
  obtain ⟨found, hfound⟩ := Option.isSome_iff_exists.mp (isSome_lookup?_collect h)
  have hsame := hshared _ (mem_of_lookup?_collect hfound) part h rfl
  exact hfound.trans (congrArg some hsame)

/-! ## What is left -/

theorem cut_of_chosen {key : String} (h : choice [] = some key) (tree : Yaml) :
    tree.cut choice = stub key ∧ tree.moved choice = [(key, tree)] := by
  cases tree <;> simp [cut, moved, h]

mutual

/-- Parts have no references that are not in the tree. -/
theorem references_moved : ∀ (tree : Yaml) (choice : Choice),
    ∀ part ∈ tree.moved choice, part.2.references ⊆ tree.references
  | .map entries, choice => by
    cases hchosen : choice [] with
    | some key => simp [moved, hchosen]
    | none =>
      rw [moved, hchosen, references]
      intro part hpart
      exact List.subset_append_of_subset_right _
        (references_movedEntries entries choice 0 part hpart)
  | .seq items, choice => by
    cases hchosen : choice [] with
    | some key => simp [moved, hchosen]
    | none =>
      rw [moved, hchosen, references]
      exact references_movedItems items choice 0
  | .tagged tag value, choice => by
    cases hchosen : choice [] with
    | some key => simp [moved, hchosen]
    | none =>
      rw [moved, hchosen, references]
      exact references_moved value (choice.under 0)
  | .null, choice | .bool _, choice | .int _, choice | .float _, choice | .str _, choice => by
    cases hchosen : choice [] with
    | some key => simp [moved, hchosen]
    | none => simp [moved, hchosen]

theorem references_movedItems : ∀ (items : List Yaml) (choice : Choice) (child : Nat),
    ∀ part ∈ movedItems items choice child, part.2.references ⊆ itemReferences items
  | [], _, _ => by simp [movedItems]
  | item :: rest, choice, child => by
    rw [movedItems, itemReferences]
    intro part hpart
    rcases List.mem_append.mp hpart with hpart | hpart
    · exact List.subset_append_of_subset_left _ (references_moved item _ part hpart)
    · exact List.subset_append_of_subset_right _ (references_movedItems rest choice _ part hpart)

theorem references_movedEntries : ∀ (entries : List (Yaml × Yaml)) (choice : Choice) (child : Nat),
    ∀ part ∈ movedEntries entries choice child, part.2.references ⊆ entryReferences entries
  | [], _, _ => by simp [movedEntries]
  | (key, value) :: rest, choice, child => by
    rw [movedEntries, entryReferences]
    intro part hpart
    rcases List.mem_append.mp hpart with hpart | hpart
    · exact List.subset_append_of_subset_left _ (references_moved value _ part hpart)
    · exact List.subset_append_of_subset_right _ (references_movedEntries rest choice _ part hpart)

end

/-- What holds no string holds none when parts of it are moved. -/
theorem text?_cut : ∀ (tree : Yaml) (choice : Choice), tree.text? = none →
    (tree.cut choice).text? = none
  | tree, choice, h => by
    cases hchosen : choice [] with
    | some key =>
      rw [(cut_of_chosen hchosen tree).1]
      rfl
    | none =>
      cases tree with
      | tagged tag value =>
        rw [cut, hchosen]
        exact text?_cut value (choice.under 0) h
      | seq items | map entries =>
        rw [cut, hchosen]
        rfl
      | null | bool | int | float | str =>
        rw [cut, hchosen]
        · exact h
        all_goals simp

/-- A mapping that is no reference does not become one when parts of it are moved. -/
theorem written?_cutEntries {entries : List (Yaml × Yaml)} (choice : Choice) (child : Nat)
    (h : Reference.written? entries = none) :
    Reference.written? (cutEntries entries choice child) = none := by
  have hcut : ∀ child, lookup? (cutEntries entries choice child) "$ref" = none ∨
      ∃ value choice', lookup? entries "$ref" = some value ∧
        lookup? (cutEntries entries choice child) "$ref" = some (value.cut choice') := by
    clear h
    induction entries with
    | nil => exact fun _ => .inl rfl
    | cons entry rest ih =>
      intro child
      obtain ⟨key, value⟩ := entry
      rw [cutEntries]
      cases key with
      | str text =>
        rw [lookup?, lookup?]
        by_cases hkey : text = "$ref"
        · rw [if_pos hkey, if_pos hkey]
          exact .inr ⟨value, _, rfl, rfl⟩
        · rw [if_neg hkey, if_neg hkey]
          exact ih (child + 1)
      | null | bool | int | float | seq | map | tagged => exact ih (child + 1)
  rw [Reference.written?] at h ⊢
  rcases hcut child with hnone | ⟨value, choice', hvalue, hcut⟩
  · rw [hnone]
    rfl
  · rw [hvalue] at h
    rw [hcut]
    exact text?_cut value choice' h

end Yaml

/-! ## Putting the parts back -/

namespace Expansion

variable {Holds : Progress → Prop}

@[simp]
theorem replace_stub (key : String) (p : Progress) :
    replace expand (Yaml.stub key) p = expand (Yaml.referenceTo key) p := by
  rw [Yaml.stub, replace]
  rfl

/-- Expanding the reference to a part gives the part. -/
def Restores (expand : String → Progress → Yaml × Progress) (Holds : Progress → Prop)
    (part : String × Yaml) : Prop :=
  ∀ p, Holds p → ∃ p', Holds p' ∧ expand (Yaml.referenceTo part.1) p = (part.2, p')

theorem replace_cut_of_chosen {key : String} (hchosen : choice [] = some key) {tree : Yaml}
    (h : ∀ part ∈ tree.moved choice, Restores expand Holds part) {p : Progress} (hp : Holds p) :
    ∃ p', Holds p' ∧ replace expand (tree.cut choice) p = (tree, p') := by
  obtain ⟨hcut, hmoved⟩ := Yaml.cut_of_chosen hchosen tree
  rw [hcut, replace_stub]
  exact h (key, tree) (hmoved ▸ List.mem_singleton_self _) p hp

mutual

/-- A tree is whole again when the references to its parts are replaced by the parts. -/
theorem replace_cut : ∀ (tree : Yaml) (choice : Choice), tree.references = [] →
    (∀ part ∈ tree.moved choice, Restores expand Holds part) → ∀ {p : Progress}, Holds p →
    ∃ p', Holds p' ∧ replace expand (tree.cut choice) p = (tree, p')
  | .map entries, choice, hfree, h, p, hp => by
    cases hchosen : choice [] with
    | some key => exact replace_cut_of_chosen hchosen h hp
    | none =>
      rw [Yaml.references, List.append_eq_nil_iff] at hfree
      have hwritten : Reference.written? entries = none := by
        simpa using hfree.1
      rw [Yaml.moved, hchosen] at h
      obtain ⟨p', hp', hentries⟩ := replaceEntries_cut entries choice 0 hfree.2 h hp
      refine ⟨p', hp', ?_⟩
      rw [Yaml.cut, hchosen]
      dsimp only [Option.elim]
      rw [replace, Yaml.written?_cutEntries choice 0 hwritten, hentries]
  | .seq items, choice, hfree, h, p, hp => by
    cases hchosen : choice [] with
    | some key => exact replace_cut_of_chosen hchosen h hp
    | none =>
      rw [Yaml.references] at hfree
      rw [Yaml.moved, hchosen] at h
      obtain ⟨p', hp', hitems⟩ := replaceItems_cut items choice 0 hfree h hp
      refine ⟨p', hp', ?_⟩
      rw [Yaml.cut, hchosen]
      dsimp only [Option.elim]
      rw [replace, hitems]
  | .tagged tag value, choice, hfree, h, p, hp => by
    cases hchosen : choice [] with
    | some key => exact replace_cut_of_chosen hchosen h hp
    | none =>
      rw [Yaml.references] at hfree
      rw [Yaml.moved, hchosen] at h
      obtain ⟨p', hp', hvalue⟩ := replace_cut value (choice.under 0) hfree h hp
      refine ⟨p', hp', ?_⟩
      rw [Yaml.cut, hchosen]
      dsimp only [Option.elim]
      rw [replace, hvalue]
  | .null, choice, _, h, p, hp | .bool _, choice, _, h, p, hp | .int _, choice, _, h, p, hp
  | .float _, choice, _, h, p, hp | .str _, choice, _, h, p, hp => by
    cases hchosen : choice [] with
    | some key => exact replace_cut_of_chosen hchosen h hp
    | none =>
      refine ⟨p, hp, ?_⟩
      rw [Yaml.cut, hchosen]
      · dsimp only [Option.elim]
        rw [replace]
        all_goals nofun
      all_goals nofun

theorem replaceItems_cut : ∀ (items : List Yaml) (choice : Choice) (child : Nat),
    Yaml.itemReferences items = [] →
    (∀ part ∈ Yaml.movedItems items choice child, Restores expand Holds part) →
    ∀ {p : Progress}, Holds p →
    ∃ p', Holds p' ∧ replaceItems expand (Yaml.cutItems items choice child) p = (items, p')
  | [], _, _, _, _, p, hp => ⟨p, hp, rfl⟩
  | item :: rest, choice, child, hfree, h, p, hp => by
    rw [Yaml.itemReferences, List.append_eq_nil_iff] at hfree
    rw [Yaml.movedItems, List.forall_mem_append] at h
    obtain ⟨p₁, hp₁, hitem⟩ := replace_cut item (choice.under child) hfree.1 h.1 hp
    obtain ⟨p₂, hp₂, hrest⟩ := replaceItems_cut rest choice (child + 1) hfree.2 h.2 hp₁
    refine ⟨p₂, hp₂, ?_⟩
    rw [Yaml.cutItems, replaceItems, hitem]
    dsimp only
    rw [hrest]

theorem replaceEntries_cut : ∀ (entries : List (Yaml × Yaml)) (choice : Choice) (child : Nat),
    Yaml.entryReferences entries = [] →
    (∀ part ∈ Yaml.movedEntries entries choice child, Restores expand Holds part) →
    ∀ {p : Progress}, Holds p →
    ∃ p', Holds p' ∧ replaceEntries expand (Yaml.cutEntries entries choice child) p = (entries, p')
  | [], _, _, _, _, p, hp => ⟨p, hp, rfl⟩
  | (key, value) :: rest, choice, child, hfree, h, p, hp => by
    rw [Yaml.entryReferences, List.append_eq_nil_iff] at hfree
    rw [Yaml.movedEntries, List.forall_mem_append] at h
    obtain ⟨p₁, hp₁, hvalue⟩ := replace_cut value (choice.under child) hfree.1 h.1 hp
    obtain ⟨p₂, hp₂, hrest⟩ := replaceEntries_cut rest choice (child + 1) hfree.2 h.2 hp₁
    refine ⟨p₂, hp₂, ?_⟩
    rw [Yaml.cutEntries, replaceEntries, hvalue]
    dsimp only
    rw [hrest]

end

/-! ## References to parts -/

/-- The reference to a part names the document beside, and the key. -/
@[simp]
theorem ofText_referenceTo (key : String) :
    Reference.ofText (Yaml.referenceTo key) = ⟨"frag.yaml", some (Pointer.ofKey key)⟩ := by
  have htext : (Yaml.referenceTo key).toList =
      "frag.yaml".toList ++ '#' :: (Pointer.ofKey key).toList := by
    rw [Yaml.referenceTo, String.toList_append]
    rfl
  rw [Reference.ofText, htext, Text.splitFirst?_append (by decide)]
  dsimp only
  rw [String.ofList_toList, String.ofList_toList]

@[simp]
theorem locationFrom_referenceTo (location : Location) (key : String) :
    (Reference.ofText (Yaml.referenceTo key)).locationFrom location = location.beside := by
  rw [ofText_referenceTo]
  rfl

/-- What a reference to a part stands for is not the document that the part was taken from. -/
theorem keyOf_referenceTo_ne {location : Location} (h : location.Proper) (part : String) :
    keyOf location (Yaml.referenceTo part) ≠ key location none := by
  have hkey : (keyOf location (Yaml.referenceTo part)).toList =
      location.beside.toString.toList ++ '#' :: '/' :: Pointer.escape part.toList := by
    rw [keyOf, locationFrom_referenceTo, ofText_referenceTo, key, Option.getD_some, Pointer.ofKey,
      String.toList_append, String.toList_append, List.append_assoc, String.toList_ofList,
      String.toList_ofList]
    rfl
  have hroot : (key location none).toList = location.toString.toList ++ ['#'] := by
    rw [key, String.toList_append, String.toList_append, Option.getD_none, String.toList_empty,
      List.append_nil]
    rfl
  intro hsame
  have hnever := Location.beside_ne h (Pointer.slash_not_mem_escape part.toList)
  exact hnever (by rw [← hkey, hsame, hroot])

end Expansion

namespace Documents

variable {docs : Documents}

/-- The reference to a part stands for what is under its key. -/
theorem dereference_referenceTo {location : Location} {entries : List (Yaml × Yaml)}
    (hparts : docs.load location.beside = .ok (.map entries)) {key : String} {part : Yaml}
    (h : Yaml.lookup? entries key = some part) :
    docs.dereference location (Yaml.referenceTo key) = .ok (location.beside, part) := by
  rw [dereference, locationFrom_referenceTo, hparts, ofText_referenceTo]
  dsimp only
  rw [selected, Pointer.select?_ofKey, h]
  rfl

/-- Expanding the reference to a part gives the part, without failures. -/
theorem restores_part {location : Location} (hlocation : location.Proper) {root : Yaml}
    (hroot : docs.load location = .ok root) {entries : List (Yaml × Yaml)}
    (hparts : docs.load location.beside = .ok (.map entries)) {part : String × Yaml}
    (hpart : Yaml.lookup? entries part.1 = some part.2) (hfree : part.2.references = [])
    (depth : Nat) :
    Restores (resolved docs depth [key location none] ⟨location, root⟩)
      (fun p => p.Faithful docs ∧ p.failures = []) part := by
  rintro p ⟨hp, hfailures⟩
  have hnew : keyOf location (Yaml.referenceTo part.1) ∉ [key location none] := by
    rw [List.mem_singleton]
    exact keyOf_referenceTo_ne hlocation part.1
  obtain ⟨p', hp', hsame, hfollowed⟩ := resolved_of_new depth hlocation hroot hnew hp
  rw [dereference_referenceTo hparts hpart] at hfollowed
  obtain ⟨inner, -, heq⟩ := hfollowed
  refine ⟨p', ⟨hp', hsame.trans hfailures⟩, ?_⟩
  rw [heq, node_of_references_nil _ _ _ _ hfree]

/-- Parts of a document without references are moved into a mapping beside it, and only equal parts
share a key. There is a mapping that has each part under its key, and with each such mapping
resolving what is left gives the document as it was. -/
theorem resolveTree_cut {text : String} {tree : Yaml} {choice : Choice}
    (hfree : tree.references = [])
    (hshared : ∀ one ∈ tree.moved choice, ∀ other ∈ tree.moved choice,
      one.1 = other.1 → one.2 = other.2)
    (hroot : docs.load (.ofText text) = .ok (tree.cut choice)) :
    (∀ part ∈ tree.moved choice,
      Yaml.lookup? (Yaml.collect (tree.moved choice)) part.1 = some part.2) ∧
    ∀ entries, (∀ part ∈ tree.moved choice, Yaml.lookup? entries part.1 = some part.2) →
      docs.load (Location.ofText text).beside = .ok (.map entries) →
      (docs.resolveTree text).result = .ok tree := by
  refine ⟨fun part hpart => Yaml.lookup?_collect hshared hpart, fun entries hentries hparts => ?_⟩
  have hproper := Location.proper_ofText text
  have hstart : Progress.start.Faithful docs := start_faithful
  obtain ⟨p, hload, hp, hfailures⟩ := load_faithful hproper hstart
  obtain ⟨depth, hdepth⟩ : ∃ depth, docs.nestingBound = depth + 1 :=
    Nat.exists_eq_succ_of_ne_zero (Nat.mul_ne_zero (Nat.succ_ne_zero _) (Nat.succ_ne_zero _))
  have hrestores : ∀ part ∈ tree.moved choice,
      Restores (resolved docs depth [key (.ofText text) none] ⟨.ofText text, tree.cut choice⟩)
        (fun p => p.Faithful docs ∧ p.failures = []) part := by
    intro part hpart
    have hnone : part.2.references = [] :=
      List.subset_nil.mp (hfree ▸ Yaml.references_moved tree choice part hpart)
    exact restores_part hproper hroot hparts (hentries part hpart) hnone depth
  obtain ⟨p', ⟨-, hended⟩, hwhole⟩ := replace_cut tree choice hfree hrestores ⟨hp, hfailures⟩
  rw [resolveTree]
  dsimp only
  rw [hload, hroot]
  dsimp only
  rw [document, hdepth, node_succ, hwhole]
  dsimp only
  rw [hended]

/-- A document with equal parts under a tag and in a mapping, and a mapping under a `$ref`. -/
def taggedTree : Yaml :=
  .map [(.str "a", .tagged "!t" (.seq [.int 1])), (.str "$ref", .map [(.str "b", .null)]),
    (.str "c", .seq [.int 1])]

def taggedChoice : Choice
  | [0, 0] => some "k/~1#"
  | [1] => some ""
  | [2] => some "k/~1#"
  | _ => none

def splitDocuments : Documents := ofLoaded
  [(.url "http://host/v1/api.yaml", .ok (taggedTree.cut taggedChoice)),
    (.url "http://host/v1/frag.yaml", .ok (.map (Yaml.collect (taggedTree.moved taggedChoice))))]

theorem resolveTree_cut_of_tagged :
    Yaml.referenceTo "k/~1#" = "frag.yaml#/k~1~01#" ∧
      taggedTree.moved taggedChoice =
        [("k/~1#", .seq [.int 1]), ("", .map [(.str "b", .null)]), ("k/~1#", .seq [.int 1])] ∧
      (splitDocuments.resolveTree "http://host/v1/api.yaml").result = .ok taggedTree := by
  have hlocation : Location.ofText "http://host/v1/api.yaml" = .url "http://host/v1/api.yaml" := by
    decide +kernel
  have hbeside : (Location.ofText "http://host/v1/api.yaml").beside =
      .url "http://host/v1/frag.yaml" := by
    decide +kernel
  have hshared : ∀ one ∈ taggedTree.moved taggedChoice, ∀ other ∈ taggedTree.moved taggedChoice,
      one.1 = other.1 → one.2 = other.2 := by
    simp [taggedTree, taggedChoice, Choice.under, Yaml.moved, Yaml.movedEntries, Yaml.movedItems]
  have hroot : splitDocuments.load (.ofText "http://host/v1/api.yaml") =
      .ok (taggedTree.cut taggedChoice) := by
    rw [hlocation]
    rfl
  obtain ⟨hthere, hresult⟩ := resolveTree_cut rfl hshared hroot
  refine ⟨by decide +kernel, rfl, hresult _ hthere ?_⟩
  rw [hbeside]
  rfl

end Documents

end LinkedApi
