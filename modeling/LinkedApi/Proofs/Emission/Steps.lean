import LinkedApi.Proofs.Generation.Delivery

/-!
# What the steps of an emission do

A step of an emission checks the stage, gathers what it needs, and then works on all three
writers. Each step has one equation that separates these parts, so that what holds of the writers
is shown for the writers alone.
-/

namespace LinkedApi

open Steps

variable {ω : Type}

namespace Writers

def beginAll (sink : Sink (StateM ω)) : Writing (StateM ω) Unit := do
  beginPipes sink
  beginQueries sink
  beginRoutes sink

/-- What the route of a declaration is bound to, given its loaded chain. -/
def bindingOf (declaration : Declaration) (chain : List PipeModule) : RouteBinding where
  route := declaration.route
  query := declaration.query.name
  pipes := chain.map (·.name)

def emitAll (sink : Sink (StateM ω)) (declaration : Declaration) (chain : List PipeModule) :
    Writing (StateM ω) Unit := do
  emitPipes sink chain
  emitQuery sink declaration.query
  emitRoute sink (bindingOf declaration chain)

def closeAll (sink : Sink (StateM ω)) : Writing (StateM ω) Unit := do
  closePipes sink
  closeQueries sink
  closeRoutes sink

/-! ## What is noted -/

/-- What a route is bound to by the chain and the query that were written last. -/
def lastBinding? (w : Writers) (route : Route) : Option RouteBinding :=
  w.lastQuery.map fun query => ⟨route, query, w.chain⟩

/-- Writes the entities of one declaration, and binds the route to what the writers have noted. -/
def emitNoted (sink : Sink (StateM ω)) (nothingNoted : GenerationError)
    (declaration : Declaration) (chain : List PipeModule) : Writing (StateM ω) Unit := do
  emitPipes sink chain
  emitQuery sink declaration.query
  match (← get).lastBinding? declaration.route with
  | some binding => emitRoute sink binding
  | none => throw nothingNoted

section Notes

variable {sink : Sink (StateM ω)}

theorem emitPipes_notes (chain : List PipeModule) :
    Triple (fun _ (_ : ω) => True) (emitPipes sink chain)
      (fun _ w _ => w.chain = chain.map (·.name)) (fun _ _ _ => True) := by
  intro w v _
  refine emitPipes_after (fun _ _ => trivial) (fun _ _ _ _ => trivial) fun fresh w' _ _ _ => ?_
  refine (deliver_of_ok _ _ _ _ _).imp ?_ fun _ _ _ => id
  rintro _ _ _ rfl
  rfl

/-- After a query the route is bound to the chain before it and to the query. -/
theorem emitQuery_notes (query : Query) (names : List String) (route : Route) :
    Triple (fun w (_ : ω) => w.chain = names) (emitQuery sink query)
      (fun _ w _ => w.lastBinding? route = some ⟨route, query.name, names⟩)
      (fun _ _ _ => True) := by
  rintro w v rfl
  refine emitQuery_after (fun _ _ => trivial) fun _ _ _ => ?_
  refine (deliver_of_ok _ _ _ _ _).imp ?_ fun _ _ _ => id
  rintro _ _ _ rfl
  rfl

/-- What the writers have noted when a route is bound is what its declaration names, and never
nothing. -/
theorem emitNoted_eq_emitAll (nothingNoted : GenerationError) (declaration : Declaration)
    (chain : List PipeModule) :
    emitNoted sink nothingNoted declaration chain = emitAll sink declaration chain := by
  funext w v
  refine (emitPipes_notes chain).bind_congr (fun _ w₁ v₁ hchain => ?_) trivial
  refine (emitQuery_notes declaration.query _ declaration.route).bind_congr
    (fun _ w₂ v₂ hnoted => ?_) hchain
  rw [bind_apply, get_apply]
  simp only [hnoted]
  rfl

end Notes

end Writers

namespace Emission

@[simp]
theorem requireStage_apply (step : EmissionStep) (expected : Stage) (e : Emission) (v : ω) :
    (requireStage step expected : Emitting (StateM ω) Unit) e v =
      if e.stage = expected then ((.ok (), e), v) else ((.error (.outOfStage step e.stage), e), v) := by
  simp only [requireStage, bind_apply, get_apply]
  split <;> rfl

@[simp]
theorem write_apply {α : Type} (steps : Writing (StateM ω) α) (e : Emission) (v : ω) :
    write steps e v =
      (((steps e.writers v).1.1.mapError .generation,
        { e with writers := (steps e.writers v).1.2 }), (steps e.writers v).2) := rfl

@[simp]
theorem loaded_apply (transport : Transport (StateM ω)) (chain : List PipeReference)
    (e : Emission) (v : ω) :
    loaded transport chain e v =
      (((Loading.load transport chain v).1.mapError .loading, e),
        (Loading.load transport chain v).2) := rfl

/-- The headers are written in the first stage only. -/
theorem begin_apply (sink : Sink (StateM ω)) (e : Emission) (v : ω) :
    begin sink e v =
      if e.stage = .idle then
        match Writers.beginAll sink e.writers v with
        | ((.ok (), w), v') => ((.ok (), ⟨.emitting, w⟩), v')
        | ((.error cause, w), v') => ((.error (.generation cause), ⟨.prewriting, w⟩), v')
      else ((.error (.outOfStage .begin e.stage), e), v) := by
  rw [begin, bind_apply, requireStage_apply]
  by_cases hidle : e.stage = .idle
  · rw [if_pos hidle, if_pos hidle]
    simp only [Writers.beginAll, bind_apply, enter, modify_apply, write_apply]
    rcases Writers.beginPipes sink e.writers v with ⟨⟨_ | ⟨⟩, w⟩, v₁⟩
    · rfl
    · simp only [Except.mapError]
      rcases Writers.beginQueries sink w v₁ with ⟨⟨_ | ⟨⟩, w'⟩, v₂⟩
      · rfl
      · simp only
        rcases Writers.beginRoutes sink w' v₂ with ⟨⟨_ | ⟨⟩, w''⟩, v₃⟩ <;> rfl
  · rw [if_neg hidle, if_neg hidle]

/-- What an operation declares and loads, before anything is written for it. -/
def gathered (transport : Transport (StateM ω)) (op : Operation) (v : ω) :
    Except CompileError (Declaration × List PipeModule) × ω :=
  match op.declaration with
  | .error cause => (.error (.extraction cause), v)
  | .ok declaration =>
    match Loading.load transport declaration.pipes v with
    | (.error cause, v') => (.error (.loading cause), v')
    | (.ok chain, v') => (.ok (declaration, chain), v')

/-- What an operation declares is loaded before anything is written for it. -/
theorem emit_apply (sink : Sink (StateM ω)) (transport : Transport (StateM ω)) (op : Operation)
    (e : Emission) (v : ω) :
    emit sink transport op e v =
      if e.stage = .emitting then
        match gathered transport op v with
        | (.error cause, v') => ((.error cause, e), v')
        | (.ok (declaration, chain), v') => write (Writers.emitAll sink declaration chain) e v'
      else ((.error (.outOfStage .emit e.stage), e), v) := by
  rw [emit, bind_apply, requireStage_apply]
  by_cases hstage : e.stage = .emitting
  · rw [if_pos hstage, if_pos hstage]
    simp only [bind_apply, declared, gathered]
    cases op.declaration with
    | error cause => rfl
    | ok declaration =>
      simp only [pure_apply, loaded_apply]
      rcases Loading.load transport declaration.pipes v with ⟨_ | chain, v'⟩
      · rfl
      · simp only [Except.mapError, Writers.emitAll, write_apply, bind_apply]
        rcases Writers.emitPipes sink chain e.writers v' with ⟨⟨_ | ⟨⟩, w⟩, v₁⟩
        · rfl
        · simp only
          rcases Writers.emitQuery sink declaration.query w v₁ with ⟨⟨_ | ⟨⟩, w'⟩, v₂⟩ <;> rfl
  · rw [if_neg hstage, if_neg hstage]

/-- The export sections are written while operations may be emitted, and the report comes after
them. -/
theorem finish_apply (sink : Sink (StateM ω)) (e : Emission) (v : ω) :
    finish sink e v =
      if e.stage = .emitting then
        match Writers.closeAll sink e.writers v with
        | ((.ok (), w), v') => ((.ok (report ⟨.done, w⟩), ⟨.done, w⟩), v')
        | ((.error cause, w), v') => ((.error (.generation cause), ⟨.postwriting, w⟩), v')
      else ((.error (.outOfStage .finish e.stage), e), v) := by
  rw [finish, bind_apply, requireStage_apply]
  by_cases hstage : e.stage = .emitting
  · rw [if_pos hstage, if_pos hstage]
    simp only [Writers.closeAll, bind_apply, enter, modify_apply, write_apply]
    rcases Writers.closePipes sink e.writers v with ⟨⟨_ | ⟨⟩, w⟩, v₁⟩
    · rfl
    · simp only [Except.mapError]
      rcases Writers.closeQueries sink w v₁ with ⟨⟨_ | ⟨⟩, w'⟩, v₂⟩
      · rfl
      · simp only
        rcases Writers.closeRoutes sink w' v₂ with ⟨⟨_ | ⟨⟩, w''⟩, v₃⟩ <;> rfl
  · rw [if_neg hstage, if_neg hstage]

/-! ## What a step comes to -/

section Outcomes

variable {sink : Sink (StateM ω)} {transport : Transport (StateM ω)} {op : Operation}
  {e : Emission} {v : ω} {R : CompileError → Emission → ω → Prop}

theorem begin_after {Q : Unit → Emission → ω → Prop}
    (hrefused : e.stage ≠ .idle → R (.outOfStage .begin e.stage) e v)
    (hwritten : e.stage = .idle →
      After (fun _ w => Q () ⟨.emitting, w⟩) (fun cause w => R (.generation cause) ⟨.prewriting, w⟩)
        (Writers.beginAll sink e.writers v)) :
    After Q R (begin sink e v) := by
  rw [begin_apply]
  split
  · next hidle =>
    have hrun := hwritten hidle
    revert hrun
    rcases Writers.beginAll sink e.writers v with ⟨⟨_ | ⟨⟩, w⟩, v'⟩ <;> exact id
  · next hidle => exact hrefused hidle

theorem emit_after {Q : Unit → Emission → ω → Prop}
    (hrefused : e.stage ≠ .emitting → R (.outOfStage .emit e.stage) e v)
    (hlost : ∀ cause v', e.stage = .emitting → gathered transport op v = (.error cause, v') →
      R cause e v')
    (hwritten : ∀ declaration chain v', e.stage = .emitting →
      gathered transport op v = (.ok (declaration, chain), v') →
      After (fun _ w => Q () { e with writers := w })
        (fun cause w => R (.generation cause) { e with writers := w })
        (Writers.emitAll sink declaration chain e.writers v')) :
    After Q R (emit sink transport op e v) := by
  rw [emit_apply]
  split
  · next hstage =>
    rcases hgathered : gathered transport op v with ⟨cause | ⟨declaration, chain⟩, v'⟩
    · exact hlost cause v' hstage hgathered
    · have hrun := hwritten declaration chain v' hstage hgathered
      dsimp only
      rw [write_apply]
      revert hrun
      rcases Writers.emitAll sink declaration chain e.writers v' with ⟨⟨_ | ⟨⟩, w⟩, v''⟩ <;>
        exact id
  · next hstage => exact hrefused hstage

theorem finish_after {Q : Report → Emission → ω → Prop}
    (hrefused : e.stage ≠ .emitting → R (.outOfStage .finish e.stage) e v)
    (hwritten : e.stage = .emitting →
      After (fun _ w => Q (report ⟨.done, w⟩) ⟨.done, w⟩)
        (fun cause w => R (.generation cause) ⟨.postwriting, w⟩)
        (Writers.closeAll sink e.writers v)) :
    After Q R (finish sink e v) := by
  rw [finish_apply]
  split
  · next hstage =>
    have hrun := hwritten hstage
    revert hrun
    rcases Writers.closeAll sink e.writers v with ⟨⟨_ | ⟨⟩, w⟩, v'⟩ <;> exact id
  · next hstage => exact hrefused hstage

end Outcomes

/-! ## What is gathered -/

section Congruence

variable {sink : Sink (StateM ω)} {transport transport' : Transport (StateM ω)}

/-- A transport counts only for what is gathered. -/
theorem emitAll_congr {ops : List Operation}
    (h : ∀ op ∈ ops, ∀ v, gathered transport op v = gathered transport' op v) :
    emitAll sink transport ops = emitAll sink transport' ops := by
  induction ops with
  | nil => rfl
  | cons op rest ih =>
    obtain ⟨hop, hrest⟩ := List.forall_mem_cons.mp h
    have hemit : emit sink transport op = emit sink transport' op := by
      funext e v
      rw [emit_apply, emit_apply, hop v]
    rw [emitAll, emitAll, hemit, ih hrest]

/-- A run depends on a transport only through what is gathered for the operations. -/
theorem run_congr {spec : Specification}
    (h : ∀ op ∈ spec.operations, ∀ v, gathered transport op v = gathered transport' op v) :
    run sink transport spec = run sink transport' spec := by
  rw [run, run, emitAll_congr h]

end Congruence

end Emission

end LinkedApi
