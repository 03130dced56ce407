import LinkedApi.Proofs.PipeModule

/-!
# Forms of a declaration

A chain is written as a mapping of names to sources, where each source stands alone or in a mapping
of its own, or as a sequence of names with sources. The locations of a type of data sources are
written as a list, of which one location may stand alone and none may be left out. Whichever form is
chosen, the same is read.
-/

namespace LinkedApi

open Outcome

def Yaml.IsCollection : Yaml → Prop
  | .map _ => True
  | .seq _ => True
  | _ => False

/-- A form in which a chain is written. In a mapping each source may stand alone. -/
inductive ChainForm where
  | mapping (alone : PipeReference → Bool)
  | sequence

namespace ChainForm

def entry (alone : Bool) (r : PipeReference) : Yaml × Yaml :=
  (.str r.name, if alone then .str r.source else .map [(.str "source", .str r.source)])

def item (r : PipeReference) : Yaml :=
  .map [(.str "name", .str r.name), (.str "source", .str r.source)]

def write : ChainForm → List PipeReference → Yaml
  | .mapping alone, refs => .map (refs.map fun r => entry (alone r) r)
  | .sequence, refs => .seq (refs.map item)

theorem isCollection_write (form : ChainForm) (refs : List PipeReference) :
    (form.write refs).IsCollection := by
  cases form <;> trivial

theorem isChain_write (form : ChainForm) (refs : List PipeReference) :
    IsChain (some (form.write refs)) refs := by
  cases form with
  | mapping alone =>
    refine List.forall₂_map_left_iff.mpr (List.forall₂_same.mpr fun r _ => ⟨rfl, ?_⟩)
    cases halone : alone r with
    | true => exact .inl (by rw [entry, if_pos rfl])
    | false => exact .inr (by rw [entry, if_neg (by decide)]; rfl)
  | sequence =>
    exact List.forall₂_map_left_iff.mpr (List.forall₂_same.mpr fun r _ => ⟨rfl, rfl⟩)

end ChainForm

namespace Operation

variable {op : Operation} {refs : List PipeReference}

theorem pipeField_of_get? {entry : Yaml} {field value : String}
    (h : entry.get? field = some (.str value)) (pipe : String) :
    op.pipeField entry field pipe = .ok value := by
  rw [pipeField, h]

theorem pipeSource_of_form {entry : Yaml} {source : String}
    (h : entry = .str source ∨ entry.get? "source" = some (.str source)) (name : String) :
    op.pipeSource name entry = .ok source := by
  rcases h with rfl | h
  · rfl
  · unfold pipeSource
    split
    · cases h
    · exact pipeField_of_get? h name

/-- A mapping that declares a chain is read as this chain. -/
theorem pipesOfMapping_of_isChain {entries : List (Yaml × Yaml)}
    (h : IsChain (some (.map entries)) refs) : op.pipesOfMapping entries = .ok refs := by
  induction h with
  | nil => rfl
  | @cons entry r entries refs hentry _ ih =>
    obtain ⟨hname, hsource⟩ := hentry
    rw [pipesOfMapping_cons, hname]
    exact bind_eq_ok.mpr ⟨r.source, pipeSource_of_form hsource r.name,
      bind_eq_ok.mpr ⟨refs, ih, rfl⟩⟩

/-- Distinct names pass the check of the names that have been read. -/
theorem pipesOfSequence_of_isChain {items : List Yaml} (h : IsChain (some (.seq items)) refs)
    {known : List PipeReference} (hnames : ((known ++ refs).map (·.name)).Nodup) :
    op.pipesOfSequence known items = .ok (known ++ refs) := by
  induction h generalizing known with
  | nil => rw [List.append_nil]; rfl
  | @cons item r items refs hitem _ ih =>
    obtain ⟨hname, hsource⟩ := hitem
    have hrest : ((known ++ [r] ++ refs).map (·.name)).Nodup := by
      rwa [List.append_assoc, List.singleton_append]
    -- The name is not among those before it, so that the check for a repetition passes.
    have hnew : ¬(known.any (·.name == r.name) = true) := by
      intro hany
      obtain ⟨q, hq, hsame⟩ := List.any_eq_true.mp hany
      rw [List.map_append] at hnames
      refine List.disjoint_of_nodup_append hnames (List.mem_map_of_mem hq) ?_
      rw [beq_iff_eq.mp hsame]
      exact List.mem_cons_self
    refine bind_eq_ok.mpr ⟨r.name, pipeField_of_get? hname _, ?_⟩
    refine bind_eq_ok.mpr ⟨r.source, pipeField_of_get? hsource _, ?_⟩
    have hall := ih hrest
    rw [List.append_assoc, List.singleton_append] at hall
    dsimp only
    rw [if_neg hnew]
    exact hall

/-- An operation has its chain written as a mapping or as a sequence. -/
def WritesChain (op : Operation) (refs : List PipeReference) : Prop :=
  ∃ node, op.node.get? "postprocessing" = some node ∧ node.IsCollection ∧ IsChain (some node) refs

theorem WritesChain.of_form {form : ChainForm}
    (h : op.node.get? "postprocessing" = some (form.write refs)) : op.WritesChain refs :=
  ⟨_, h, form.isCollection_write refs, form.isChain_write refs⟩

/-- A chain is read in whichever form it is written, if each name stands there once. -/
theorem WritesChain.readPipes (h : op.WritesChain refs) (hnames : (refs.map (·.name)).Nodup) :
    op.readPipes = .ok refs := by
  obtain ⟨node, hnode, hcollection, hchain⟩ := h
  rw [Operation.readPipes, hnode]
  cases node with
  | map entries => exact pipesOfMapping_of_isChain hchain
  | seq items => exact pipesOfSequence_of_isChain hchain hnames
  | _ => cases hcollection

/-- A chain that has been read is taken, unless one of its names cannot be used. -/
theorem pipes_of_readPipes (h : op.readPipes = .ok refs) :
    op.pipes = match refs.find? fun r => !isPipeName r.name with
      | some r => .error (.invalidIdentifier r.name op.method op.path)
      | none => .ok refs := by
  rw [pipes_eq, h]
  rfl

end Operation

namespace Specification

/-- A form in which locations are written: a list of them, a single one, or nothing. -/
inductive HasLocations : Yaml → List String → Prop where
  | listed {items : List Yaml} {values : List String}
      (h : List.Forall₂ (fun item value => item.text? = some value) items values) :
      HasLocations (.seq items) values
  | alone (value : String) : HasLocations (.str value) [value]
  | none : HasLocations .null []

theorem locations_of_forall₂ {items : List Yaml} {values : List String} (type : String)
    (h : List.Forall₂ (fun item value => item.text? = some value) items values) :
    locations type items = .ok (values.map (⟨type, ·⟩)) := by
  induction h with
  | nil => rfl
  | cons hitem _ ih =>
    rw [locations, hitem]
    exact bind_eq_ok.mpr ⟨_, ih, rfl⟩

theorem sourcesOfType_of_hasLocations {node : Yaml} {values : List String}
    (h : HasLocations node values) (type : String) :
    sourcesOfType type node = .ok (values.map (⟨type, ·⟩)) := by
  cases h with
  | listed h => exact locations_of_forall₂ type h
  | alone value => rfl
  | none => rfl

/-- Entries list types of data sources with their locations. -/
def ListsSources (entries : List (Yaml × Yaml)) (types : List (String × List String)) : Prop :=
  List.Forall₂ (fun entry type => entry.1.text? = some type.1 ∧ HasLocations entry.2 type.2)
    entries types

/-- Data sources are read type by type, in whichever forms their locations are written. -/
theorem sourcesOfEntries_of_listsSources {entries : List (Yaml × Yaml)}
    {types : List (String × List String)} (h : ListsSources entries types) :
    sourcesOfEntries entries = .ok (types.flatMap fun type => type.2.map (⟨type.1, ·⟩)) := by
  induction h with
  | nil => rfl
  | cons hentry _ ih =>
    obtain ⟨htype, hlocations⟩ := hentry
    rw [sourcesOfEntries, htype]
    exact bind_eq_ok.mpr ⟨_, sourcesOfType_of_hasLocations hlocations _,
      bind_eq_ok.mpr ⟨_, ih, rfl⟩⟩

/-- A chain with distinct names gives its steps in their order, or the error for the first name that
cannot be used. This is so for every form in which it is written, so that operations that differ in
the form only give the same. The data sources are the locations of the types one after the other,
for every form of each list. -/
theorem forms_agree :
    (∀ {op : Operation} {refs : List PipeReference}, (refs.map (·.name)).Nodup →
      op.WritesChain refs →
        ((∀ r ∈ refs, Operation.isPipeName r.name) → op.pipes = .ok refs) ∧
        (∀ before r after, refs = before ++ r :: after →
          (∀ q ∈ before, Operation.isPipeName q.name) → Operation.isPipeName r.name = false →
            op.pipes = .error (.invalidIdentifier r.name op.method op.path)) ∧
        ∀ {op' : Operation}, op'.WritesChain refs → op'.method = op.method → op'.path = op.path →
          op'.pipes = op.pipes) ∧
    (∀ {op : Operation} {refs : List PipeReference} (form : ChainForm),
      op.node.get? "postprocessing" = some (form.write refs) → op.WritesChain refs) ∧
    (∀ {entries : List (Yaml × Yaml)} {types : List (String × List String)},
      ListsSources entries types →
        sourcesOf (.map entries) = .ok (types.flatMap fun type => type.2.map (⟨type.1, ·⟩))) ∧
    ∀ values : List String, HasLocations (.seq (values.map .str)) values := by
  refine ⟨fun hnames hop => ?_, fun _ => .of_form, sourcesOfEntries_of_listsSources,
    fun values => .listed ?_⟩
  · have hread := hop.readPipes hnames
    refine ⟨fun hall => Operation.pipes_eq_ok_iff.mpr ⟨hread, hall⟩,
      fun before r after hsplit hbefore hr => ?_, fun hop' hmethod hpath => ?_⟩
    · exact Operation.pipes_eq_invalidIdentifier_iff.mpr
        ⟨before, r, after, hsplit ▸ hread, hbefore, hr, rfl, rfl, rfl⟩
    · rw [Operation.pipes_of_readPipes hread,
        Operation.pipes_of_readPipes (hop'.readPipes hnames), hmethod, hpath]
  · exact List.forall₂_map_left_iff.mpr (List.forall₂_same.mpr fun value _ => rfl)

def withChain (form : ChainForm) (refs : List PipeReference) : Operation :=
  ⟨"/a", "get", .map [(.str "postprocessing", form.write refs)]⟩

/-- Two names that cannot be used, in a chain that is written in two forms, and all forms of
lists. -/
theorem forms_agree_of_mixed :
    let refs : List PipeReference :=
      [⟨"a", "http://x/a.js"⟩, ⟨"b-c", "http://x/b.js"⟩, ⟨"eval-", "http://x/a.js"⟩]
    let mixed := withChain (.mapping (·.name == "b-c")) refs
    let sequence := withChain .sequence refs
    (withChain .sequence [⟨"a", "http://x/a.js"⟩]).pipes = .ok [⟨"a", "http://x/a.js"⟩] ∧
      mixed.pipes = .error (.invalidIdentifier "b-c" "get" "/a") ∧ sequence.pipes = mixed.pipes ∧
      sourcesOf (.map [(.str "sparql", .seq [.str "http://a", .str "http://b"]),
          (.str "file", .str "http://c"), (.str "none", .null)]) =
        .ok [⟨"sparql", "http://a"⟩, ⟨"sparql", "http://b"⟩, ⟨"file", "http://c"⟩] := by
  intro refs mixed sequence
  obtain ⟨hchains, hforms, hsources, hlists⟩ := forms_agree
  have hnames : (refs.map (·.name)).Nodup := by decide
  have hone : (withChain .sequence [⟨"a", "http://x/a.js"⟩]).WritesChain
      [⟨"a", "http://x/a.js"⟩] := hforms .sequence rfl
  have hmixed : mixed.WritesChain refs := hforms _ rfl
  have hsequence : sequence.WritesChain refs := hforms _ rfl
  obtain ⟨-, hbad, hsame⟩ := hchains hnames hmixed
  have htypes : ListsSources
      [(.str "sparql", .seq [.str "http://a", .str "http://b"]), (.str "file", .str "http://c"),
        (.str "none", .null)]
      [("sparql", ["http://a", "http://b"]), ("file", ["http://c"]), ("none", [])] :=
    .cons ⟨rfl, hlists ["http://a", "http://b"]⟩ (.cons ⟨rfl, .alone _⟩ (.cons ⟨rfl, .none⟩ .nil))
  refine ⟨(hchains (by decide) hone).1 (by decide +kernel), ?_, hsame hsequence rfl rfl,
    hsources htypes⟩
  exact hbad [_] _ _ rfl (by decide +kernel) (by decide +kernel)

end Specification

end LinkedApi
