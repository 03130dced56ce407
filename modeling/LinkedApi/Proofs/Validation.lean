import LinkedApi.Proofs.Outcomes
import LinkedApi.Validation
import Mathlib.Data.List.Forall2
import Mathlib.Data.List.Nodup

/-!
# What validation establishes

A specification that is valid has a declaration for each operation. Query names are distinct, a
pipe module has one source wherever it occurs, and all names may be bound in the generated
modules.
-/

namespace LinkedApi

open Outcome

/-- The steps of a chain, in the order in which a node declares them. In a mapping each has its name
as its key, and there may be nothing but its source under it. -/
def IsChain : Option Yaml → List PipeReference → Prop
  | some (.map entries), refs =>
    List.Forall₂ (fun entry r => entry.1.text? = some r.name ∧
      (entry.2 = .str r.source ∨ entry.2.get? "source" = some (.str r.source))) entries refs
  | some (.seq items), refs =>
    List.Forall₂ (fun item r => item.get? "name" = some (.str r.name) ∧
      item.get? "source" = some (.str r.source)) items refs
  | _, refs => refs = []

/-- What the parts of a declaration are, in terms of the operation. -/
structure Declares (op : Operation) (d : Declaration) : Prop where
  /-- The path is written as the router has it, and the query is named after the operation. -/
  route : ∃ method, Method.ofName? op.method = some method ∧
    d.route = ⟨method, Route.routerPath op.path⟩ ∧ d.query.name = Query.nameOf method op.path
  /-- The query is written in a single line. -/
  query : ∃ block text, op.node.get? "query" = some (.map block) ∧
    Yaml.lookup? block "graphql-query" = some (.str text) ∧
    d.query.text = String.ofList (Text.singleLine text.toList) ∧
    op.queryContext block = .ok d.query.context
  pipes : op.pipes = .ok d.pipes
  chain : IsChain (op.node.get? "postprocessing") d.pipes
  query_identifier : Text.isIdentifier d.query.name
  pipe_names : ∀ r ∈ d.pipes, Operation.isPipeName r.name

namespace Operation

variable {op : Operation}

theorem route_ok {route : Route} (h : op.route = .ok route) :
    ∃ method, Method.ofName? op.method = some method ∧
      route = ⟨method, Route.routerPath op.path⟩ := by
  unfold Operation.route at h
  cases hmethod : Method.ofName? op.method with
  | none => rw [hmethod] at h; cases h
  | some method =>
    rw [hmethod] at h
    exact ⟨method, rfl, (Except.ok.inj h).symm⟩

theorem queryText_ok {block : List (Yaml × Yaml)} {text : String}
    (h : op.queryText block = .ok text) :
    Yaml.lookup? block "graphql-query" = some (.str text) := by
  unfold queryText at h
  split at h
  · next found hfound => rw [hfound, Except.ok.inj h]
  · cases h
  · cases h

/-- What a query is made of stands in its block. -/
theorem query_ok {query : Query} (h : op.query = .ok query) :
    ∃ route block text, op.route = .ok route ∧ op.node.get? "query" = some (.map block) ∧
      Yaml.lookup? block "graphql-query" = some (.str text) ∧
      query.name = Query.nameOf route.method op.path ∧
      query.text = String.ofList (Text.singleLine text.toList) ∧
      op.queryContext block = .ok query.context ∧ Text.isIdentifier query.name := by
  unfold Operation.query at h
  obtain ⟨route, hroute, h⟩ := bind_eq_ok.mp h
  dsimp only at h
  split at h
  · next block hblock =>
    obtain ⟨_, hsame, h⟩ := bind_eq_ok.mp h
    cases pure_eq_ok.mp hsame
    obtain ⟨text, htext, h⟩ := bind_eq_ok.mp h
    obtain ⟨context, hcontext, h⟩ := bind_eq_ok.mp h
    split at h
    · next hname =>
      cases pure_eq_ok.mp h
      exact ⟨route, block, text, hroute, hblock, queryText_ok htext, rfl, rfl, hcontext, hname⟩
    · cases h
  · cases h
  · cases h

theorem pipeField_ok {entry : Yaml} {field pipe value : String}
    (h : op.pipeField entry field pipe = .ok value) : entry.get? field = some (.str value) := by
  unfold pipeField at h
  split at h
  · next found hfound => rw [hfound, Except.ok.inj h]
  · cases h
  · cases h

/-- The source of a pipe module in a chain that is a mapping. -/
def pipeSource (op : Operation) (name : String) : Yaml → Except ExtractError String
  | .str source => .ok source
  | entry => op.pipeField entry "source" name

theorem pipeSource_ok {name source : String} {entry : Yaml}
    (h : op.pipeSource name entry = .ok source) :
    entry = .str source ∨ entry.get? "source" = some (.str source) := by
  unfold pipeSource at h
  split at h
  · exact .inl (congrArg Yaml.str (Except.ok.inj h))
  · exact .inr (pipeField_ok h)

theorem pipesOfMapping_cons (op : Operation) (key entry : Yaml) (rest : List (Yaml × Yaml)) :
    op.pipesOfMapping ((key, entry) :: rest) =
      match key.text? with
      | none => .error (op.malformed (.pipeNameNotString key.kind))
      | some name => do
        let source ← op.pipeSource name entry
        let more ← op.pipesOfMapping rest
        return ⟨name, source⟩ :: more := by
  rw [pipesOfMapping]
  cases key.text? with
  | none => rfl
  | some name => cases entry <;> rfl

/-- What is read from a mapping is declared there. -/
theorem pipesOfMapping_ok {entries : List (Yaml × Yaml)} {refs : List PipeReference}
    (h : op.pipesOfMapping entries = .ok refs) : IsChain (some (.map entries)) refs := by
  induction entries generalizing refs with
  | nil =>
    cases Except.ok.inj h
    exact .nil
  | cons entry rest ih =>
    rw [pipesOfMapping_cons] at h
    split at h
    · cases h
    · next name htext =>
      obtain ⟨source, hsource, h⟩ := bind_eq_ok.mp h
      obtain ⟨more, hmore, h⟩ := bind_eq_ok.mp h
      cases pure_eq_ok.mp h
      exact .cons ⟨htext, pipeSource_ok hsource⟩ (ih hmore)

/-- No name is taken that has been read before. -/
theorem pipesOfSequence_ok {items : List Yaml} {known refs : List PipeReference}
    (h : op.pipesOfSequence known items = .ok refs) (hknown : (known.map (·.name)).Nodup) :
    (refs.map (·.name)).Nodup ∧
      ∃ more, refs = known ++ more ∧ IsChain (some (.seq items)) more := by
  induction items generalizing known with
  | nil =>
    cases Except.ok.inj h
    exact ⟨hknown, [], (List.append_nil refs).symm, .nil⟩
  | cons entry rest ih =>
    obtain ⟨name, hname, h⟩ := bind_eq_ok.mp h
    obtain ⟨source, hsource, h⟩ := bind_eq_ok.mp h
    dsimp only at h
    split at h
    · cases h
    · next hnew =>
      have hnext : ((known ++ [PipeReference.mk name source]).map (·.name)).Nodup := by
        rw [List.map_append, List.map_singleton]
        refine List.concat_eq_append ▸ hknown.concat fun hmem => hnew ?_
        obtain ⟨r, hr, hsame⟩ := List.mem_map.mp hmem
        exact List.any_eq_true.mpr ⟨r, hr, beq_iff_eq.mpr hsame⟩
      obtain ⟨hnodup, more, rfl, hmore⟩ := ih h hnext
      refine ⟨hnodup, ⟨name, source⟩ :: more, List.append_assoc _ _ _, ?_⟩
      exact .cons ⟨pipeField_ok hname, pipeField_ok hsource⟩ hmore

/-- The chain as it is read, before its names are looked at. -/
def readPipes (op : Operation) : Except ExtractError (List PipeReference) :=
  match op.node.get? "postprocessing" with
  | none => .ok []
  | some .null => .ok []
  | some (.map entries) => op.pipesOfMapping entries
  | some (.seq items) => op.pipesOfSequence [] items
  | some other => .error (op.malformed (.chainNotCollection other.kind))

/-- Names are looked at once the whole chain has been read. -/
theorem pipes_eq (op : Operation) :
    op.pipes = op.readPipes >>= fun read =>
      match read.find? fun r => !isPipeName r.name with
      | some r => throw (.invalidIdentifier r.name op.method op.path)
      | none => pure read := by
  unfold Operation.pipes readPipes
  cases op.node.get? "postprocessing" with
  | none => rfl
  | some node => cases node <;> rfl

theorem readPipes_ok {refs : List PipeReference} (h : op.readPipes = .ok refs) :
    IsChain (op.node.get? "postprocessing") refs := by
  unfold readPipes at h
  split at h
  · next hnode => exact hnode ▸ (Except.ok.inj h).symm
  · next hnode => exact hnode ▸ (Except.ok.inj h).symm
  · next hnode => exact hnode ▸ pipesOfMapping_ok h
  · next hnode =>
    obtain ⟨-, more, rfl, hmore⟩ := pipesOfSequence_ok h List.nodup_nil
    exact hnode ▸ hmore
  · cases h

theorem pipes_ok {pipes : List PipeReference} (h : op.pipes = .ok pipes) :
    op.readPipes = .ok pipes ∧ ∀ r ∈ pipes, isPipeName r.name := by
  rw [pipes_eq] at h
  obtain ⟨read, hread, h⟩ := bind_eq_ok.mp h
  cases hfound : read.find? fun r => !isPipeName r.name with
  | some r => rw [hfound] at h; cases h
  | none =>
    rw [hfound] at h
    cases pure_eq_ok.mp h
    exact ⟨hread, by simpa using hfound⟩

/-- What is read from an operation is what it declares. -/
theorem declares_of_ok {d : Declaration} (h : op.declaration = .ok d) : Declares op d := by
  unfold declaration at h
  obtain ⟨route, hroute, h⟩ := bind_eq_ok.mp h
  obtain ⟨query, hquery, h⟩ := bind_eq_ok.mp h
  obtain ⟨pipes, hpipes, h⟩ := bind_eq_ok.mp h
  cases pure_eq_ok.mp h
  obtain ⟨method, hmethod, rfl⟩ := route_ok hroute
  obtain ⟨_, block, text, hsame, hblock, htext, hname, hline, hcontext, hidentifier⟩ :=
    query_ok hquery
  rw [hroute] at hsame
  cases hsame
  obtain ⟨hread, hnames⟩ := pipes_ok hpipes
  exact ⟨⟨method, hmethod, rfl, hname⟩, ⟨block, text, hblock, htext, hline, hcontext⟩, hpipes,
    readPipes_ok hread, hidentifier, hnames⟩

end Operation

/-- The declarations of some operations are those of the first ones and of the others. -/
theorem forall₂_append_left {α β : Type} {R : α → β → Prop} {before after : List α} {ds : List β}
    (h : List.Forall₂ R (before ++ after) ds) :
    ∃ ds₁ ds₂, ds = ds₁ ++ ds₂ ∧ List.Forall₂ R before ds₁ ∧ List.Forall₂ R after ds₂ := by
  induction before generalizing ds with
  | nil => exact ⟨[], ds, rfl, .nil, h⟩
  | cons a rest ih =>
    obtain ⟨d, more, hd, hrest, rfl⟩ := List.forall₂_cons_left_iff.mp h
    obtain ⟨ds₁, ds₂, rfl, hbefore, hafter⟩ := ih hrest
    exact ⟨d :: ds₁, ds₂, rfl, .cons hd hbefore, hafter⟩

/-- References to pipe modules of one name have one source. -/
def Consistent (refs : List PipeReference) : Prop :=
  ∀ r ∈ refs, ∀ r' ∈ refs, r.name = r'.name → r.source = r'.source

/-- What holds of all declarations of a valid specification together. -/
structure Coherent (ds : List Declaration) : Prop where
  queries : (ds.map (·.query.name)).Nodup
  sources : Consistent (ds.flatMap (·.pipes))

theorem Coherent.of_append {ds more : List Declaration} (h : Coherent (ds ++ more)) :
    Coherent ds := by
  constructor
  · have hqueries := h.queries
    rw [List.map_append] at hqueries
    exact hqueries.of_append_left
  · intro r hr r' hr'
    have hsub : ds.flatMap (·.pipes) ⊆ (ds ++ more).flatMap (·.pipes) := by
      rw [List.flatMap_append]
      exact List.subset_append_left _ _
    exact h.sources r (hsub hr) r' (hsub hr')

namespace Validation

/-- What has been seen is what some declarations declare. -/
structure Records (seen : Seen) (ds : List Declaration) : Prop where
  queries : seen.queries.map (·.1) = ds.map (·.query.name)
  distinct : (ds.map (·.query.name)).Nodup
  pipes : ∀ r ∈ ds.flatMap (·.pipes), known? seen.pipes r.name = some r.source

theorem Records.coherent {seen : Seen} {ds : List Declaration} (h : Records seen ds) :
    Coherent ds := by
  refine ⟨h.distinct, ?_⟩
  intro r hr r' hr' hname
  have hsource := h.pipes r hr
  rw [hname, h.pipes r' hr'] at hsource
  exact (Option.some.inj hsource).symm

@[simp]
theorem known?_eq_none {pairs : List (String × String)} {name : String} :
    known? pairs name = none ↔ name ∉ pairs.map (·.1) := by
  rw [known?, Option.map_eq_none_iff, List.find?_eq_none]
  constructor
  · intro h hmem
    obtain ⟨entry, hentry, hname⟩ := List.mem_map.mp hmem
    exact h entry hentry (by simpa using hname)
  · intro h entry hentry hname
    exact h (List.mem_map.mpr ⟨entry, hentry, by simpa using hname⟩)

theorem known?_append {pairs : List (String × String)} {name source : String}
    (h : known? pairs name = some source) (more : List (String × String)) :
    known? (pairs ++ more) name = some source := by
  unfold known? at h ⊢
  rw [List.find?_append]
  cases hfound : pairs.find? (·.1 == name) with
  | none => rw [hfound] at h; cases h
  | some entry => rwa [hfound] at h

/-- A pipe module that is added is known with its source, and the others stay known. -/
theorem addPipe_ok {pipes pipes' : List (String × String)} {r : PipeReference}
    (h : addPipe pipes r = .ok pipes') :
    known? pipes' r.name = some r.source ∧
      ∀ {name source}, known? pipes name = some source → known? pipes' name = some source := by
  unfold addPipe at h
  split at h
  · next hnone =>
    cases Except.ok.inj h
    refine ⟨?_, fun hknown => known?_append hknown _⟩
    unfold known? at hnone ⊢
    rw [List.find?_append, Option.map_eq_none_iff.mp hnone]
    simp
  · next source hsome =>
    split at h
    · next hsame =>
      cases Except.ok.inj h
      exact ⟨by rw [hsome, hsame], id⟩
    · cases h

theorem addPipes_ok {refs : List PipeReference} {pipes pipes' : List (String × String)}
    (h : refs.foldlM addPipe pipes = .ok pipes') :
    (∀ r ∈ refs, known? pipes' r.name = some r.source) ∧
      ∀ {name source}, known? pipes name = some source → known? pipes' name = some source := by
  induction refs generalizing pipes with
  | nil =>
    cases Except.ok.inj h
    exact ⟨by simp, id⟩
  | cons r rest ih =>
    rw [List.foldlM_cons] at h
    obtain ⟨next, hnext, h⟩ := bind_eq_ok.mp h
    obtain ⟨hadded, hkept⟩ := addPipe_ok hnext
    obtain ⟨hrest, hlater⟩ := ih h
    refine ⟨?_, fun hknown => hlater (hkept hknown)⟩
    intro other hother
    rcases List.mem_cons.mp hother with rfl | hother
    · exact hlater hadded
    · exact hrest other hother

/-- An operation that is added is recorded. -/
theorem addOperation_ok {seen seen' : Seen} {op : Operation} {ds : List Declaration}
    (hrecords : Records seen ds) (h : addOperation seen op = .ok seen') :
    ∃ d, op.declaration = .ok d ∧ Records seen' (ds ++ [d]) := by
  unfold addOperation at h
  obtain ⟨d, hd, h⟩ := bind_eq_ok.mp h
  dsimp only at h
  split at h
  · cases h
  · next hnew =>
    obtain ⟨pipes, hpipes, h⟩ := bind_eq_ok.mp h
    cases pure_eq_ok.mp h
    obtain ⟨hadded, hkept⟩ := addPipes_ok hpipes
    rw [known?_eq_none, hrecords.queries] at hnew
    refine ⟨d, hd, ?_, ?_, ?_⟩
    · simp [hrecords.queries]
    · rw [List.map_append, List.map_singleton]
      simpa using hrecords.distinct.concat hnew
    · intro r hr
      rw [List.flatMap_append, List.mem_append, List.flatMap_singleton] at hr
      exact hr.elim (fun hold => hkept (hrecords.pipes r hold)) (hadded r)

theorem addOperations_ok {ops : List Operation} {seen seen' : Seen} {ds : List Declaration}
    (hrecords : Records seen ds) (h : ops.foldlM addOperation seen = .ok seen') :
    ∃ more, List.Forall₂ (fun op d => op.declaration = .ok d) ops more ∧
      Records seen' (ds ++ more) := by
  induction ops generalizing seen ds with
  | nil =>
    cases Except.ok.inj h
    exact ⟨[], .nil, by simpa using hrecords⟩
  | cons op rest ih =>
    rw [List.foldlM_cons] at h
    obtain ⟨next, hnext, h⟩ := bind_eq_ok.mp h
    obtain ⟨d, hd, hone⟩ := addOperation_ok hrecords hnext
    obtain ⟨more, hmore, hall⟩ := ih hone h
    exact ⟨d :: more, .cons hd hmore, by simpa using hall⟩

/-! ### Counting -/

/-- A pipe module is noted under its name, if it was not before. -/
theorem addPipe_names {pipes pipes' : List (String × String)} {r : PipeReference}
    (h : addPipe pipes r = .ok pipes') (hnodup : (pipes.map (·.1)).Nodup) :
    (pipes'.map (·.1)).Nodup ∧
      ∀ name, name ∈ pipes'.map (·.1) ↔ name ∈ pipes.map (·.1) ∨ name = r.name := by
  unfold addPipe at h
  split at h
  · next hnone =>
    cases Except.ok.inj h
    rw [known?_eq_none] at hnone
    rw [List.map_append, List.map_singleton]
    refine ⟨by simpa using hnodup.concat hnone, fun name => ?_⟩
    rw [List.mem_append, List.mem_singleton]
  · next source hsome =>
    have hknown : r.name ∈ pipes.map (·.1) := by
      by_contra hnone
      rw [known?_eq_none.mpr hnone] at hsome
      cases hsome
    split at h
    · cases Except.ok.inj h
      refine ⟨hnodup, fun name => ⟨.inl, ?_⟩⟩
      rintro (hname | rfl)
      · exact hname
      · exact hknown
    · cases h

/-- Each name is recorded once, and only names that are added. -/
theorem addPipes_names {refs : List PipeReference} {pipes pipes' : List (String × String)}
    (h : refs.foldlM addPipe pipes = .ok pipes') (hnodup : (pipes.map (·.1)).Nodup) :
    (pipes'.map (·.1)).Nodup ∧
      ∀ name, name ∈ pipes'.map (·.1) ↔ name ∈ pipes.map (·.1) ∨ name ∈ refs.map (·.name) := by
  induction refs generalizing pipes with
  | nil =>
    cases Except.ok.inj h
    exact ⟨hnodup, by simp⟩
  | cons r rest ih =>
    rw [List.foldlM_cons] at h
    obtain ⟨next, hnext, h⟩ := bind_eq_ok.mp h
    obtain ⟨hnodup', hadded⟩ := addPipe_names hnext hnodup
    obtain ⟨hnodup'', hrest⟩ := ih h hnodup'
    refine ⟨hnodup'', fun name => ?_⟩
    rw [hrest, hadded, List.map_cons, List.mem_cons, or_assoc]

/-- The pipe modules that have been seen are those of the declarations, each once. -/
theorem addOperations_names {ops : List Operation} {ds : List Declaration}
    (hops : List.Forall₂ (fun op d => op.declaration = .ok d) ops ds) {seen seen' : Seen}
    (h : ops.foldlM addOperation seen = .ok seen') (hnodup : (seen.pipes.map (·.1)).Nodup) :
    (seen'.pipes.map (·.1)).Nodup ∧ ∀ name, name ∈ seen'.pipes.map (·.1) ↔
      name ∈ seen.pipes.map (·.1) ∨ name ∈ (ds.flatMap (·.pipes)).map (·.name) := by
  induction hops generalizing seen with
  | nil =>
    cases Except.ok.inj h
    exact ⟨hnodup, by simp⟩
  | @cons op d ops ds hd _ ih =>
    rw [List.foldlM_cons] at h
    obtain ⟨next, hnext, h⟩ := bind_eq_ok.mp h
    unfold addOperation at hnext
    rw [hd] at hnext
    obtain ⟨d', hd', hnext⟩ := bind_eq_ok.mp hnext
    cases hd'
    dsimp only at hnext
    split at hnext
    · cases hnext
    · obtain ⟨pipes, hpipes, hnext⟩ := bind_eq_ok.mp hnext
      cases pure_eq_ok.mp hnext
      obtain ⟨hnodup', hadded⟩ := addPipes_names hpipes hnodup
      obtain ⟨hnodup'', hrest⟩ := ih h hnodup'
      refine ⟨hnodup'', fun name => ?_⟩
      rw [hrest, hadded, List.flatMap_cons, List.map_append, List.mem_append, or_assoc]

end Validation

namespace Specification

variable {ops : List Operation} {ds : List Declaration}

theorem exists_declaration (h : List.Forall₂ (fun op d => op.declaration = .ok d) ops ds)
    {op : Operation} (hop : op ∈ ops) : ∃ d ∈ ds, op.declaration = .ok d := by
  induction h with
  | nil => cases hop
  | @cons op' d ops ds hd _ ih =>
    rcases List.mem_cons.mp hop with rfl | hop
    · exact ⟨d, List.mem_cons_self, hd⟩
    · obtain ⟨d', hd', hdeclared⟩ := ih hop
      exact ⟨d', List.mem_cons_of_mem _ hd', hdeclared⟩

theorem exists_operation (h : List.Forall₂ (fun op d => op.declaration = .ok d) ops ds)
    {d : Declaration} (hd : d ∈ ds) : ∃ op ∈ ops, op.declaration = .ok d := by
  induction h with
  | nil => cases hd
  | @cons op d' ops ds hdeclared _ ih =>
    rcases List.mem_cons.mp hd with rfl | hd
    · exact ⟨op, List.mem_cons_self, hdeclared⟩
    · obtain ⟨op', hop', hdeclared'⟩ := ih hd
      exact ⟨op', List.mem_cons_of_mem _ hop', hdeclared'⟩

theorem map_declaration (h : List.Forall₂ (fun op d => op.declaration = .ok d) ops ds) :
    ops.map Operation.declaration = ds.map .ok := by
  induction h with
  | nil => rfl
  | cons hd _ ih => rw [List.map_cons, List.map_cons, hd, ih]

/-- A valid specification has declarations that go together. -/
theorem validate_ok {spec : Specification} {summary : Summary}
    (h : spec.validate = .ok summary) :
    ∃ ds, List.Forall₂ (fun op d => op.declaration = .ok d) spec.operations ds ∧ Coherent ds := by
  unfold validate at h
  obtain ⟨sources, -, h⟩ := bind_eq_ok.mp h
  obtain ⟨seen, hseen, -⟩ := bind_eq_ok.mp h
  have hnothing : Validation.Records ⟨[], []⟩ [] := ⟨rfl, List.nodup_nil, by simp⟩
  obtain ⟨ds, hds, hrecords⟩ := Validation.addOperations_ok hnothing hseen
  rw [List.nil_append] at hrecords
  exact ⟨ds, hds, hrecords.coherent⟩

/-- What a valid specification is found to declare: the operations, and the pipe modules with each
name counted once. -/
theorem validate_counts {spec : Specification} {summary : Summary}
    (h : spec.validate = .ok summary)
    (hops : List.Forall₂ (fun op d => op.declaration = .ok d) spec.operations ds) :
    summary.operations = ds.length ∧ ∃ names : List String, names.Nodup ∧
      (∀ name, name ∈ names ↔ name ∈ (ds.flatMap (·.pipes)).map (·.name)) ∧
      summary.pipeModules = names.length := by
  unfold validate at h
  obtain ⟨sources, -, h⟩ := bind_eq_ok.mp h
  obtain ⟨seen, hseen, h⟩ := bind_eq_ok.mp h
  cases pure_eq_ok.mp h
  obtain ⟨hnodup, hnames⟩ := Validation.addOperations_names hops hseen List.nodup_nil
  refine ⟨hops.length_eq, _, hnodup, fun name => ?_, (List.length_map _).symm⟩
  rw [hnames]
  simp

end Specification

end LinkedApi
