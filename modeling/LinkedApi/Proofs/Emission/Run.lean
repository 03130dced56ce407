import LinkedApi.Proofs.Emission.Layout

/-!
# Whole runs

A run of an emission writes the layout of everything that is declared, with all export sections.
It can only fail because the sink refuses an append, because a chain cannot be loaded, or because
a chain names a pipe module twice.
-/

namespace LinkedApi

open Generated Steps Text

variable {ω : Type}

/-- A declaration with its loaded chain. -/
structure Emitted where
  declaration : Declaration
  chain : List PipeModule

namespace Emitted

def binding (e : Emitted) : RouteBinding := Writers.bindingOf e.declaration e.chain

def modules (es : List Emitted) : List PipeModule := PipeModule.firsts (es.flatMap (·.chain))

def artifacts (sources : List DataSource) (es : List Emitted) : Texts :=
  finalLayout sources (modules es) (es.map (·.declaration.query)) (es.map binding)

def report (es : List Emitted) : Report := ⟨es.length, es.length, (modules es).length⟩

/-- A chain is what has been loaded for its declaration, and may be written. -/
structure Sound (loads : List PipeReference → List PipeModule → Prop) (e : Emitted) : Prop where
  query : isIdentifier e.declaration.query.name
  pipes : ∀ r ∈ e.declaration.pipes, isIdentifier r.name
  references : e.chain.map PipeModule.reference <+: e.declaration.pipes
  nodup : (e.chain.map (·.name)).Nodup
  loads : loads e.declaration.pipes e.chain

variable {loads : List PipeReference → List PipeModule → Prop}

theorem mem_references {refs : List PipeReference} {chain : List PipeModule}
    (h : chain.map PipeModule.reference <+: refs) {pipe : PipeModule} (hpipe : pipe ∈ chain) :
    pipe.reference ∈ refs :=
  h.subset (List.mem_map_of_mem hpipe)

/-- The names in a chain that is loaded are identifiers, as they were declared. -/
theorem isIdentifier_of_mem_chain {refs : List PipeReference} {chain : List PipeModule}
    (h : chain.map PipeModule.reference <+: refs) (hrefs : ∀ r ∈ refs, isIdentifier r.name)
    {pipe : PipeModule} (hpipe : pipe ∈ chain) : isIdentifier pipe.name := by
  have hreference := hrefs pipe.reference (mem_references h hpipe)
  exact hreference

theorem exists_of_mem_modules {es : List Emitted} {pipe : PipeModule} (h : pipe ∈ modules es) :
    ∃ e ∈ es, pipe ∈ e.chain :=
  List.mem_flatMap.mp ((PipeModule.firsts_sublist _).subset h)

theorem isIdentifier_of_mem_modules {es : List Emitted} (h : ∀ e ∈ es, e.Sound loads)
    {pipe : PipeModule} (hpipe : pipe ∈ modules es) : isIdentifier pipe.name := by
  obtain ⟨e, he, hmem⟩ := exists_of_mem_modules hpipe
  exact isIdentifier_of_mem_chain (h e he).references (h e he).pipes hmem

/-- One declaration more adds the pipe modules of its chain that have new names. -/
theorem modules_append {es : List Emitted} {e : Emitted} (h : (e.chain.map (·.name)).Nodup) :
    modules (es ++ [e]) = modules es ++ PipeModule.newOf (modules es) e.chain := by
  rw [modules, List.flatMap_append, List.flatMap_singleton, PipeModule.firsts_append_of_nodup _ h]
  rfl

variable {es : List Emitted} {d : Declaration} {rest : List Declaration}

/-- What comes next declares a query that has not been written. -/
theorem query_not_mem (h : Coherent (es.map (·.declaration) ++ d :: rest)) :
    d.query.name ∉ (es.map (·.declaration.query)).map (·.name) := by
  have hqueries := h.queries
  rw [List.map_append, List.map_cons, List.nodup_append] at hqueries
  intro hname
  simp only [List.map_map] at hname hqueries
  exact hqueries.2.2 _ hname _ List.mem_cons_self rfl

/-- A module that has been written under the name of one that comes next is the same module. -/
theorem source_eq_of_mem (hsound : ∀ e ∈ es, e.Sound loads)
    (h : Coherent (es.map (·.declaration) ++ d :: rest)) {chain : List PipeModule}
    (hreferences : chain.map PipeModule.reference <+: d.pipes) {pipe p : PipeModule}
    (hpipe : pipe ∈ chain) (hp : p ∈ modules es) (hname : p.name = pipe.name) :
    p.source = pipe.source := by
  obtain ⟨e, he, hp⟩ := exists_of_mem_modules hp
  have hbefore : p.reference ∈ (es.map (·.declaration) ++ d :: rest).flatMap (·.pipes) :=
    List.mem_flatMap.mpr ⟨e.declaration, List.mem_append_left _ (List.mem_map_of_mem he),
      mem_references (hsound e he).references hp⟩
  have hnow : pipe.reference ∈ (es.map (·.declaration) ++ d :: rest).flatMap (·.pipes) :=
    List.mem_flatMap.mpr ⟨d, List.mem_append_right _ List.mem_cons_self,
      mem_references hreferences hpipe⟩
  exact h.sources p.reference hbefore pipe.reference hnow hname

end Emitted

/-! ## Loading -/

namespace Loading

/-- Steps are assembled as they were declared. -/
theorem assemble_prefix {refs : List PipeReference} {outcomes : List Fetched}
    {chain : List PipeModule} (h : assemble (refs.zip outcomes) = .ok chain) :
    chain.map PipeModule.reference <+: refs := by
  induction refs generalizing outcomes chain with
  | nil =>
    cases Except.ok.inj h
    exact List.prefix_rfl
  | cons r rest ih =>
    cases outcomes with
    | nil =>
      cases Except.ok.inj h
      exact List.nil_prefix
    | cons outcome outcomes =>
      cases outcome with
      | error cause => cases h
      | ok body =>
        obtain ⟨more, hmore, h⟩ := Outcome.bind_eq_ok.mp h
        cases Outcome.pure_eq_ok.mp h
        exact (List.prefix_cons_inj r).mpr (ih hmore)

/-- However many outcomes a transport gives, what is loaded begins as the chain was declared. -/
theorem load_prefix (transport : Transport (StateM ω)) {refs : List PipeReference} {v v' : ω}
    {chain : List PipeModule} (h : load transport refs v = (.ok chain, v')) :
    chain.map PipeModule.reference <+: refs := by
  unfold load at h
  split at h
  · cases h
    exact List.nil_prefix
  · exact assemble_prefix (congrArg Prod.fst h)

end Loading

/-- What is held of the texts stays true when a chain is loaded. A chain that is loaded is as
`loads` says, and only what `unloaded` says may be the reason why one is not. -/
structure Transport.Tracks (transport : Transport (StateM ω)) (held : Texts → ω → Prop)
    (loads : List PipeReference → List PipeModule → Prop) (unloaded : LoadingError → Prop) :
    Prop where
  load : ∀ (texts : Texts) (v : ω) (refs : List PipeReference), held texts v →
    match Loading.load transport refs v with
    | (.ok chain, v') => loads refs chain ∧ held texts v'
    | (.error cause, _) => unloaded cause

def CompileError.IsOutside (refused : FileError → Prop) (unloaded : LoadingError → Prop)
    (e : CompileError) : Prop :=
  (∃ cause, e = .generation (.file cause) ∧ refused cause) ∨
    ∃ cause, e = .loading cause ∧ unloaded cause

/-! ## Runs -/

namespace Emission

variable {sink : Sink (StateM ω)} {transport : Transport (StateM ω)} {held : Texts → ω → Prop}
  {refused : FileError → Prop} {loads : List PipeReference → List PipeModule → Prop}
  {unloaded : LoadingError → Prop} {sources : List DataSource} {ds : List Declaration}

/-- Some declarations are emitted, and more may follow. -/
structure Reached (held : Texts → ω → Prop) (sources : List DataSource) (es : List Emitted)
    (e : Emission) (v : ω) : Prop where
  stage : e.stage = .emitting
  layout : AtLayout held sources (Emitted.modules es) (es.map (·.declaration.query))
    (es.map Emitted.binding) e.writers v

/-- A failure that has its reason outside, or in a chain that names a pipe module twice. -/
def Excused (held : Texts → ω → Prop) (refused : FileError → Prop)
    (unloaded : LoadingError → Prop) (ds : List Declaration) (e : CompileError) (v : ω) : Prop :=
  e.IsOutside refused unloaded ∨
    (∃ cause : GenerationError, e = .generation cause ∧ cause.IsRepetition) ∧
      (∃ d ∈ ds, ¬(d.pipes.map (·.name)).Nodup) ∧ ∃ texts, held texts v

theorem begin_reached (hsink : sink.Tracks held refused) :
    Triple (fun e v => e = idle sources ∧ held (fun _ => "") v) (begin sink)
      (fun _ => Reached held sources [])
      (fun cause _ => Excused held refused unloaded ds cause) := by
  rintro e v ⟨rfl, hheld⟩
  refine begin_after (fun hidle => absurd rfl hidle) fun _ => ?_
  refine (beginAll_written hsink sources (.fresh sources) v ⟨rfl, hheld⟩).imp
    (fun _ _ _ hlayout => ⟨rfl, hlayout⟩) ?_
  rintro _ _ _ ⟨reason, rfl, hrefused⟩
  exact .inl (.inl ⟨reason, rfl, hrefused⟩)

/-- What is gathered for an operation begins as its chain was declared, and is as it is loaded. -/
theorem gathered_tracks (htransport : transport.Tracks held loads unloaded) {op : Operation}
    {d : Declaration} (hd : op.declaration = .ok d) {texts : Texts} {v : ω} (hheld : held texts v) :
    match gathered transport op v with
    | (.ok (declaration, chain), v') => declaration = d ∧
        chain.map PipeModule.reference <+: d.pipes ∧ loads d.pipes chain ∧ held texts v'
    | (.error cause, _) => ∃ reason, cause = .loading reason ∧ unloaded reason := by
  have hload := htransport.load texts v d.pipes hheld
  rw [gathered, hd]
  dsimp only
  rcases hloaded : Loading.load transport d.pipes v with ⟨reason | chain, v'⟩ <;>
    rw [hloaded] at hload
  · exact ⟨reason, rfl, hload⟩
  · exact ⟨rfl, Loading.load_prefix transport hloaded, hload⟩

/-- One operation is emitted after others with which it is coherent. -/
theorem emit_reached (hsink : sink.Tracks held refused)
    (htransport : transport.Tracks held loads unloaded) {es : List Emitted}
    (hsound : ∀ e ∈ es, e.Sound loads) {op : Operation} {d : Declaration}
    (hd : op.declaration = .ok d) {rest : List Declaration}
    (hcoherent : Coherent (es.map (·.declaration) ++ d :: rest)) (hmem : d ∈ ds) :
    Triple (Reached held sources es) (emit sink transport op)
      (fun _ e v => ∃ emitted : Emitted, emitted.declaration = d ∧ emitted.Sound loads ∧
        Reached held sources (es ++ [emitted]) e v)
      (fun cause _ => Excused held refused unloaded ds cause) := by
  rintro e v ⟨hstage, hlayout⟩
  have hdeclares := Operation.declares_of_ok hd
  have hgathered := gathered_tracks htransport hd hlayout.held
  refine emit_after (fun hleft => absurd hstage hleft) (fun cause v' _ hlost => ?_)
    fun declaration chain v' _ hfound => ?_
  · rw [hlost] at hgathered
    obtain ⟨reason, rfl, hunloaded⟩ := hgathered
    exact .inl (.inr ⟨reason, rfl, hunloaded⟩)
  rw [hfound] at hgathered
  obtain ⟨rfl, hreferences, hloads, hheld⟩ := hgathered
  have hpipes : ∀ r ∈ declaration.pipes, isIdentifier r.name := fun r hr =>
    (Bool.and_eq_true_iff.mp (hdeclares.pipe_names r hr)).1
  have hnames : ∀ pipe ∈ chain, isIdentifier pipe.name := fun _ =>
    Emitted.isIdentifier_of_mem_chain hreferences hpipes
  have hnew := Emitted.query_not_mem hcoherent
  have hsources : ∀ pipe ∈ chain, ∀ p ∈ Emitted.modules es,
      p.name = pipe.name → p.source = pipe.source := fun _ hpipe _ =>
    Emitted.source_eq_of_mem hsound hcoherent hreferences hpipe
  refine (emitAll_written hsink hdeclares.query_identifier hnew hnames hsources e.writers v'
    ⟨hlayout.written, hheld⟩).imp ?_ ?_
  · rintro _ w v'' ⟨hnodup, hlayout'⟩
    refine ⟨⟨declaration, chain⟩, rfl,
      ⟨hdeclares.query_identifier, hpipes, hreferences, hnodup, hloads⟩, hstage, ?_⟩
    rw [Emitted.modules_append hnodup, List.map_append, List.map_append]
    exact hlayout'
  · rintro cause w v'' (⟨reason, rfl, hrefused⟩ | ⟨hrepeated, hcause, hstill⟩)
    · exact .inl (.inl ⟨reason, rfl, hrefused⟩)
    · refine .inr ⟨⟨cause, rfl, hcause⟩, ⟨declaration, hmem, fun hnodup => hrepeated ?_⟩, hstill⟩
      have hsublist := hreferences.sublist.map (·.name)
      rw [List.map_map] at hsublist
      exact hnodup.sublist hsublist

/-- Declarations are emitted one after the other, unless something outside fails or a chain repeats
a name. -/
theorem emitAll_reached (hsink : sink.Tracks held refused)
    (htransport : transport.Tracks held loads unloaded) {ops : List Operation}
    {rest : List Declaration} (hops : List.Forall₂ (fun op d => op.declaration = .ok d) ops rest)
    {es : List Emitted} (hsound : ∀ e ∈ es, e.Sound loads)
    (hcoherent : Coherent (es.map (·.declaration) ++ rest)) (hmem : ∀ d ∈ rest, d ∈ ds) :
    Triple (Reached held sources es) (emitAll sink transport ops)
      (fun _ e v => ∃ es' : List Emitted,
        es'.map (·.declaration) = es.map (·.declaration) ++ rest ∧ (∀ e ∈ es', e.Sound loads) ∧
          Reached held sources es' e v)
      (fun cause _ => Excused held refused unloaded ds cause) := by
  induction hops generalizing es with
  | nil =>
    intro e v hreached
    exact ⟨es, (List.append_nil _).symm, hsound, hreached⟩
  | @cons op d ops rest hd hrest ih =>
    rw [List.forall_mem_cons] at hmem
    apply (emit_reached hsink htransport hsound hd hcoherent hmem.1).bind
    rintro _ e v ⟨emitted, rfl, hemitted, hreached⟩
    have hsound' : ∀ e ∈ es ++ [emitted], e.Sound loads := by
      intro other hother
      rcases List.mem_append.mp hother with hother | hother
      · exact hsound other hother
      · rwa [List.mem_singleton.mp hother]
    have hcoherent' : Coherent ((es ++ [emitted]).map (·.declaration) ++ rest) := by
      rwa [List.map_append, List.append_assoc]
    refine (ih hsound' hcoherent' hmem.2 e v hreached).imp ?_ fun _ _ _ => id
    rintro _ e' v' ⟨es', hes', h⟩
    exact ⟨es', by rw [hes', List.map_append, List.append_assoc]; rfl, h⟩

/-- A run of what is declared coherently writes all of it and reports how much this is, unless it
fails for a reason outside or for a repetition. -/
theorem run_reports (hsink : sink.Tracks held refused)
    (htransport : transport.Tracks held loads unloaded) {spec : Specification}
    (hops : List.Forall₂ (fun op d => op.declaration = .ok d) spec.operations ds)
    (hcoherent : Coherent ds) :
    Triple (fun e v => e = idle sources ∧ held (fun _ => "") v) (run sink transport spec)
      (fun report _ v => ∃ es : List Emitted, es.map (·.declaration) = ds ∧
        (∀ e ∈ es, e.Sound loads) ∧ report = Emitted.report es ∧
        held (Emitted.artifacts sources es) v)
      (fun cause _ => Excused held refused unloaded ds cause) := by
  have hnone : Coherent (([] : List Emitted).map (·.declaration) ++ ds) := hcoherent
  apply (begin_reached hsink).bind
  intro _
  apply (emitAll_reached hsink htransport hops (by simp) hnone fun _ => id).bind
  rintro _ e v ⟨es, hes, hsound, hstage, hlayout⟩
  have hqueries : ∀ query ∈ es.map (·.declaration.query), isIdentifier query.name := by
    intro query hquery
    obtain ⟨emitted, hemitted, rfl⟩ := List.mem_map.mp hquery
    exact (hsound emitted hemitted).query
  have hrun := closeAll_written hsink
    (fun pipe hpipe => Emitted.isIdentifier_of_mem_modules hsound hpipe) hqueries e.writers v
    hlayout
  refine finish_after (fun hleft => absurd hstage hleft) fun _ => hrun.imp ?_ ?_
  · rintro _ w v' ⟨hlisted, hheld⟩
    refine ⟨es, hes, hsound, ?_, hheld⟩
    simp [report, Emitted.report, Registry.count, hlisted.pipes, hlisted.queries, hlisted.routes]
  · rintro _ _ _ ⟨reason, rfl, hrefused⟩
    exact .inl (.inl ⟨reason, rfl, hrefused⟩)

/-- What has been written when a run has ended. -/
theorem run_spec (hsink : sink.Tracks held refused)
    (htransport : transport.Tracks held loads unloaded) {spec : Specification}
    (hops : List.Forall₂ (fun op d => op.declaration = .ok d) spec.operations ds)
    (hcoherent : Coherent ds) :
    Triple (fun e v => e = idle sources ∧ held (fun _ => "") v) (run sink transport spec)
      (fun _ _ v => ∃ es : List Emitted, es.map (·.declaration) = ds ∧
        (∀ e ∈ es, e.Sound loads) ∧ held (Emitted.artifacts sources es) v)
      (fun cause _ => Excused held refused unloaded ds cause) := by
  apply (run_reports hsink htransport hops hcoherent).weaken (fun _ _ => id) _ fun _ _ _ => id
  rintro _ _ v ⟨es, hes, hsound, -, hheld⟩
  exact ⟨es, hes, hsound, hheld⟩

end Emission

end LinkedApi
