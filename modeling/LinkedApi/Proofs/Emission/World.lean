import LinkedApi.Proofs.Emission.Steps

/-!
# What an emission keeps of the world

An emission touches the world only through the sink, to which it appends, and through the transport,
from which it fetches. What both keep is kept by every step, whether it returns or fails.
-/

namespace LinkedApi

open Steps

variable {ω : Type} {P : ω → Prop}

/-- What holds of the world stays true whether an append succeeds or fails. -/
def Sink.Keeps (sink : Sink (StateM ω)) (P : ω → Prop) : Prop :=
  ∀ artifact text v, P v → P (sink.append artifact text v).2

/-- What holds of the world stays true whatever is fetched. -/
def Transport.Keeps (transport : Transport (StateM ω)) (P : ω → Prop) : Prop :=
  ∀ locations v, P v → P (transport.fetchAll locations v).2

namespace Steps

variable {ε σ α β : Type}

/-- What holds of the world stays true whether a step returns or fails. -/
def Keeps (P : ω → Prop) (x : Steps ε σ ω α) : Prop := ∀ s v, P v → P (x s v).2

theorem Keeps.bind {x : Steps ε σ ω α} {f : α → Steps ε σ ω β} (hx : Keeps P x)
    (hf : ∀ a, Keeps P (f a)) : Keeps P (x >>= f) := by
  intro s v hv
  have hfirst := hx s v hv
  rw [bind_apply]
  rcases hrun : x s v with ⟨⟨e | a, s'⟩, v'⟩ <;> rw [hrun] at hfirst
  · exact hfirst
  · exact hf a s' v' hfirst

theorem after_world {outcome : (Except ε α × σ) × ω} :
    After (fun _ _ v => P v) (fun _ _ v => P v) outcome ↔ P outcome.2 :=
  @after_state ε σ ω α (fun _ => P) outcome

end Steps

/-! ## Writers -/

namespace Writers

variable {sink : Sink (StateM ω)}

theorem deliver_keeps (h : sink.Keeps P) (artifact : Artifact) (text : String) (phase : Phase) :
    Keeps P (deliver sink artifact text phase) := by
  intro w v hv
  have hoffer : P (sink.offer artifact text v).2 := by
    unfold Sink.offer
    split
    · exact hv
    · exact h artifact text v hv
  rw [deliver]
  revert hoffer
  rcases sink.offer artifact text v with ⟨_ | ⟨⟩, v'⟩ <;> exact id

theorem emitPipes_keeps (h : sink.Keeps P) (chain : List PipeModule) :
    Keeps P (emitPipes sink chain) := by
  intro w v hv
  exact after_world.mp (emitPipes_after (fun _ _ => hv) (fun _ _ _ _ => hv) fun _ _ _ _ _ =>
    after_world.mpr (deliver_keeps h _ _ _ _ v hv))

theorem emitQuery_keeps (h : sink.Keeps P) (query : Query) : Keeps P (emitQuery sink query) := by
  intro w v hv
  exact after_world.mp (emitQuery_after (fun _ _ => hv) fun _ _ _ =>
    after_world.mpr (deliver_keeps h _ _ _ _ v hv))

theorem emitRoute_keeps (h : sink.Keeps P) (binding : RouteBinding) :
    Keeps P (emitRoute sink binding) := by
  intro w v hv
  exact after_world.mp (emitRoute_after (fun _ _ => hv) fun _ _ _ =>
    after_world.mpr (deliver_keeps h _ _ _ _ v hv))

theorem emitAll_keeps (h : sink.Keeps P) (declaration : Declaration) (chain : List PipeModule) :
    Keeps P (emitAll sink declaration chain) :=
  (emitPipes_keeps h chain).bind fun _ => (emitQuery_keeps h _).bind fun _ => emitRoute_keeps h _

theorem closePipes_keeps (h : sink.Keeps P) : Keeps P (closePipes sink) := by
  intro w v hv
  exact after_world.mp (closePipes_after (fun _ _ => hv) fun _ _ =>
    after_world.mpr (deliver_keeps h _ _ _ w v hv))

theorem closeQueries_keeps (h : sink.Keeps P) : Keeps P (closeQueries sink) := by
  intro w v hv
  exact after_world.mp (closeQueries_after (fun _ _ => hv) fun _ _ =>
    after_world.mpr (deliver_keeps h _ _ _ w v hv))

theorem closeRoutes_keeps (h : sink.Keeps P) : Keeps P (closeRoutes sink) := by
  intro w v hv
  exact after_world.mp (closeRoutes_after (fun _ _ => hv) fun _ =>
    after_world.mpr (deliver_keeps h _ _ _ w v hv))

theorem closeAll_keeps (h : sink.Keeps P) : Keeps P (closeAll sink) :=
  (closePipes_keeps h).bind fun _ => (closeQueries_keeps h).bind fun _ => closeRoutes_keeps h

end Writers

/-! ## Emissions -/

namespace Emission

variable {sink : Sink (StateM ω)} {transport : Transport (StateM ω)}

theorem gathered_keeps (h : transport.Keeps P) (op : Operation) {v : ω} (hv : P v) :
    P (gathered transport op v).2 := by
  unfold gathered
  cases op.declaration with
  | error cause => exact hv
  | ok declaration =>
    have hload : P (Loading.load transport declaration.pipes v).2 := by
      unfold Loading.load
      split
      · exact hv
      · exact h _ v hv
    dsimp only
    revert hload
    rcases Loading.load transport declaration.pipes v with ⟨_ | chain, v'⟩ <;> exact id

/-- To emit an operation keeps what sink and transport keep. -/
theorem emit_keeps (h : sink.Keeps P) (htransport : transport.Keeps P) (op : Operation) :
    Keeps P (emit sink transport op) := by
  intro e v hv
  have hgathered := gathered_keeps htransport op hv
  refine after_world.mp (emit_after (fun _ => hv) (fun _ _ _ hlost => ?_)
    fun declaration chain v' _ hfound => after_world.mpr ?_)
  · rwa [hlost] at hgathered
  · rw [hfound] at hgathered
    exact Writers.emitAll_keeps h declaration chain e.writers v' hgathered

theorem emitAll_keeps (h : sink.Keeps P) (htransport : transport.Keeps P) (ops : List Operation) :
    Keeps P (emitAll sink transport ops) := by
  induction ops with
  | nil => exact fun _ _ => id
  | cons op rest ih => exact (emit_keeps h htransport op).bind fun _ => ih

theorem finish_keeps (h : sink.Keeps P) : Keeps P (finish sink) := by
  intro e v hv
  exact after_world.mp (finish_after (fun _ => hv) fun _ =>
    after_world.mpr (Writers.closeAll_keeps h e.writers v hv))

end Emission

end LinkedApi
