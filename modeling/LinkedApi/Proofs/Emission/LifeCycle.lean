import LinkedApi.Proofs.Emission.Composition
import Mathlib.Data.Nat.Basic

/-!
# The life cycle of an emission

An emission goes through its stages in one direction. A call that does not belong to the present
stage is refused, and nothing happens. Every artifact is composed of whole pieces at every moment.
After a failure to write the headers, and after any attempt to write the export sections, nothing
happens any more.
-/

namespace LinkedApi

open Steps

variable {ω : Type}

def Stage.position : Stage → Nat
  | .idle => 0
  | .prewriting => 1
  | .emitting => 2
  | .postwriting => 3
  | .done => 4

namespace Emission

namespace Call

def step : Call → EmissionStep
  | .begin => .begin
  | .emit _ => .emit
  | .finish => .finish

/-- The stage in which a call is accepted. -/
def stage : Call → Stage
  | .begin => .idle
  | .emit _ => .emitting
  | .finish => .emitting

def stageAfter : Call → Except CompileError (Option Report) → Stage
  | .begin, .ok _ => .emitting
  | .begin, .error _ => .prewriting
  | .emit _, _ => .emitting
  | .finish, .ok _ => .done
  | .finish, .error _ => .postwriting

/-- A call that is accepted ends the life of an emission if it writes the export sections, or if
it fails to write the headers. -/
def Ends (call : Call) (outcome : Except CompileError (Option Report)) : Prop :=
  call = .finish ∨ call = .begin ∧ ∃ cause, outcome = .error cause

/-- Once the life of an emission has ended, no call is accepted in its stage. -/
theorem stage_ne_of_ends {call : Call} {outcome : Except CompileError (Option Report)}
    (h : call.Ends outcome) (later : Call) : call.stageAfter outcome ≠ later.stage := by
  rcases h with rfl | ⟨rfl, cause, rfl⟩
  · cases outcome <;> cases later <;> nofun
  · cases later <;> nofun

end Call

variable (sink : Sink (StateM ω)) (transport : Transport (StateM ω))

def answer : Call → Emission × ω → Except CompileError (Option Report)
  | .begin, (e, v) => (begin sink e v).1.1.map fun _ => none
  | .emit op, (e, v) => (emit sink transport op e v).1.1.map fun _ => none
  | .finish, (e, v) => (finish sink e v).1.1.map some

/-! ## Stages -/

variable {sink transport} {now : Emission × ω}

/-- A call in the wrong stage fails and changes nothing. -/
theorem perform_of_ne {call : Call} (h : now.1.stage ≠ call.stage) :
    answer sink transport call now = .error (.outOfStage call.step now.1.stage) ∧
      perform sink transport call now = now := by
  obtain ⟨e, v⟩ := now
  cases call with
  | begin =>
    have hidle : ¬e.stage = .idle := h
    simp only [answer, perform, begin_apply, if_neg hidle]
    exact ⟨rfl, trivial⟩
  | emit op =>
    have hemitting : ¬e.stage = .emitting := h
    simp only [answer, perform, emit_apply, if_neg hemitting]
    exact ⟨rfl, trivial⟩
  | finish =>
    have hemitting : ¬e.stage = .emitting := h
    simp only [answer, perform, finish_apply, if_neg hemitting]
    exact ⟨rfl, trivial⟩

/-- A call in the right stage leaves the stage that its answer tells. -/
theorem stage_perform {call : Call} (h : now.1.stage = call.stage) :
    (perform sink transport call now).1.stage =
      call.stageAfter (answer sink transport call now) := by
  obtain ⟨e, v⟩ := now
  cases call with
  | begin =>
    have hidle : e.stage = .idle := h
    simp only [answer, perform, begin_apply, if_pos hidle]
    rcases Writers.beginAll sink e.writers v with ⟨⟨_ | ⟨⟩, w⟩, v'⟩ <;> rfl
  | emit op =>
    have hemitting : e.stage = .emitting := h
    simp only [perform, emit_apply, if_pos hemitting]
    rcases gathered transport op v with ⟨_ | ⟨declaration, chain⟩, v'⟩ <;> exact hemitting
  | finish =>
    have hemitting : e.stage = .emitting := h
    simp only [answer, perform, finish_apply, if_pos hemitting]
    rcases Writers.closeAll sink e.writers v with ⟨⟨_ | ⟨⟩, w⟩, v'⟩ <;> rfl

/-- No call goes back to an earlier stage. -/
theorem position_le_perform (call : Call) :
    now.1.stage.position ≤ (perform sink transport call now).1.stage.position := by
  by_cases h : now.1.stage = call.stage
  · rw [stage_perform h, h]
    cases call <;> cases answer sink transport _ now <;> simp [Call.stage, Call.stageAfter, Stage.position]
  · rw [(perform_of_ne h).2]

/-- When no call is accepted, nothing happens any more. -/
theorem performAll_of_ne (h : ∀ call : Call, now.1.stage ≠ call.stage) (calls : List Call) :
    performAll sink transport calls now = now := by
  induction calls with
  | nil => rfl
  | cons call rest ih => rw [performAll, (perform_of_ne (h call)).2, ih]

/-! ## Pieces -/

/-- What is known of the artifacts in each stage. -/
def Orderly (sources : List DataSource) (supply : Supply) : Stage → Writers → ω × Journal → Prop
  | .idle => Standings sources supply fun _ => .untouched
  | .emitting => Standings sources supply fun _ => .begun
  | _ => fun _ v => v.2.Always (Texts.Composed sources supply)

variable {sources : List DataSource} {supply : Supply}

theorem Orderly.always {stage : Stage} {w : Writers} {v : ω × Journal}
    (h : Orderly sources supply stage w v) : v.2.Always (Texts.Composed sources supply) := by
  cases stage with
  | idle => exact Standings.always h
  | emitting => exact Standings.always h
  | prewriting | postwriting | done => exact h

/-- What is known of the artifacts depends on what has been noted. -/
theorem standings_of_journal {standing : Artifact → Standing} {w : Writers} {v v' : ω × Journal}
    (h : Standings sources supply standing w v) (hjournal : v'.2 = v.2) :
    Standings sources supply standing w v' :=
  ⟨hjournal ▸ h.always, h.declared, hjournal ▸ h.each⟩

/-- What is known of the artifacts in each stage is kept by all parts of the calls. -/
theorem orderly_invariant (sink : Sink (StateM ω)) (transport : Transport (StateM ω))
    (sources : List DataSource) (ops : List Operation) :
    Invariant sink.journaled transport.journaled ops
      (Orderly sources (supplied transport ops)) where
  begin := beginAll_standings sink
  gather op _ v h := standings_of_journal h (gathered_journal transport op v)
  emit declaration chain h := emitAll_standings sink fun _ _ hentity =>
    ⟨declaration, chain, gathers_journaled.mp h, hentity⟩
  finish := closeAll_standings sink

/-- Whatever is called, whatever is fetched and whichever appends fail, the stage of an emission
moves forward only; a call out of its stage is refused and does nothing; every artifact is made of
whole pieces at every moment, each for an entity of an operation that was to be emitted; and nothing
happens any more after a call that ends the life of the emission. -/
theorem life_cycle (sink : Sink (StateM ω)) (transport : Transport (StateM ω))
    (sources : List DataSource) (v : ω) (before after : List Call) (call : Call) :
    let now := performAll sink.journaled transport.journaled before (idle sources, (v, []))
    let outcome := answer sink.journaled transport.journaled call now
    let next := perform sink.journaled transport.journaled call now
    now.1.stage.position ≤ next.1.stage.position ∧
    (now.1.stage ≠ call.stage →
      outcome = .error (.outOfStage call.step now.1.stage) ∧ next = now) ∧
    (∀ moment artifact, Composed sources (supplied transport (operations (before ++ [call])))
      artifact (Journal.text (next.2.2.take moment) artifact)) ∧
    (now.1.stage = call.stage → call.Ends outcome →
      performAll sink.journaled transport.journaled after next = next) := by
  intro now outcome next
  refine ⟨position_le_perform call, fun h => perform_of_ne h, ?_, fun hstage hends => ?_⟩
  · have hinvariant := orderly_invariant sink transport sources (operations (before ++ [call]))
    have hbefore : operations before ⊆ operations (before ++ [call]) := fun op hop =>
      mem_operations.mpr (List.mem_append_left _ (mem_operations.mp hop))
    have hcall : ∀ op, call = .emit op → op ∈ operations (before ++ [call]) := by
      rintro op rfl
      exact mem_operations.mpr (List.mem_append_right _ List.mem_cons_self)
    have hnow : Holds (Orderly sources _) now :=
      hinvariant.performAll hbefore (standings_fresh sources _ v)
    exact (hinvariant.perform hcall hnow).always
  · apply performAll_of_ne
    intro later
    rw [stage_perform hstage]
    exact Call.stage_ne_of_ends hends later

def refusing : Sink (StateM Unit) where
  create _ := pure (.ok ())
  append _ _ := pure (.error (.other "no space left"))

/-- The first header is refused, and a later attempt does nothing. -/
theorem life_cycle_of_refusing :
    let transport : Transport (StateM Unit) := .each "" fun _ => pure (.ok "")
    let next := perform refusing.journaled transport.journaled .begin (idle [], ((), []))
    next.1.stage = .prewriting ∧
      performAll refusing.journaled transport.journaled [.begin, .finish] next = next := by
  intro transport next
  have hfails : answer refusing.journaled transport.journaled .begin (idle [], ((), [])) =
      .error (.generation (.file (.other "no space left"))) := by decide +kernel
  refine ⟨?_, ?_⟩
  · have hstage : next.1.stage = Call.begin.stageAfter _ := stage_perform rfl
    rwa [hfails] at hstage
  · exact (life_cycle refusing transport [] () [] [.begin, .finish] .begin).2.2.2 rfl
      (.inr ⟨rfl, _, hfails⟩)

end Emission

end LinkedApi
