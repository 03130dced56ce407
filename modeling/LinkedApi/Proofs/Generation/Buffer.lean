import LinkedApi.Proofs.Generation.Writing

/-!
# Buffers lose nothing

What is pushed to a buffer has been appended, once and in order, or is still pending. This holds
after any calls, whichever appends the sink refuses. An append is never empty, and a buffer is
closed once all that was pushed before has been appended.
-/

namespace LinkedApi

open Steps

variable {ω : Type}

/-- A text that was offered to a sink to append, and whether it was taken. -/
structure Offered where
  artifact : Artifact
  text : String
  taken : Bool
  deriving DecidableEq, Repr

/-- The same sink, which also notes each text that it is offered. -/
def Sink.observed (sink : Sink (StateM ω)) : Sink (StateM (ω × List Offered)) where
  create artifact := fun (v, offers) =>
    ((sink.create artifact v).1, ((sink.create artifact v).2, offers))
  append artifact text := fun (v, offers) =>
    let (outcome, v') := sink.append artifact text v
    (outcome, (v', offers ++ [⟨artifact, text, outcome.isOk⟩]))

/-- What has been appended to an artifact: the texts that were taken. -/
def appended (artifact : Artifact) (offers : List Offered) : String :=
  String.join ((offers.filter fun o => o.artifact = artifact ∧ o.taken = true).map (·.text))

theorem appended_concat (artifact : Artifact) (offers : List Offered) (text : String)
    (taken : Bool) :
    appended artifact (offers ++ [⟨artifact, text, taken⟩]) =
      appended artifact offers ++ if taken then text else "" := by
  rw [appended, List.filter_append, List.map_append, String.join_append]
  cases taken <;> simp [appended]

namespace Buffer

inductive Call where
  | start
  | push (text : String)
  | flush
  | close
  deriving DecidableEq, Repr

def answer (sink : Sink (StateM ω)) (artifact : Artifact) : Call → Buffering (StateM ω) Unit
  | .start => start artifact
  | .push text => push text
  | .flush => flush sink artifact
  | .close => close sink artifact

/-- The buffer and the world as a call leaves them, whether it succeeds or fails. -/
def perform (sink : Sink (StateM ω)) (artifact : Artifact) (now : Buffer × ω) (call : Call) :
    Buffer × ω :=
  ((answer sink artifact call now.1 now.2).1.2, (answer sink artifact call now.1 now.2).2)

def performAll (sink : Sink (StateM ω)) (artifact : Artifact) (calls : List Call)
    (now : Buffer × ω) : Buffer × ω :=
  calls.foldl (perform sink artifact) now

def Call.text : Call → String
  | .push text => text
  | _ => ""

def pushed (calls : List Call) : String := String.join (calls.map Call.text)

@[simp]
theorem pushed_concat (calls : List Call) (call : Call) :
    pushed (calls ++ [call]) = pushed calls ++ call.text := by
  rw [pushed, List.map_append, String.join_append]
  simp [pushed]

/-- In a phase, a text has been appended up to what is pending, and nothing empty was offered. -/
structure Holds (artifact : Artifact) (text : String) (phase : Phase) (b : Buffer)
    (x : ω × List Offered) : Prop where
  text : appended artifact x.2 ++ b.pending = text
  phase : b.phase = phase
  offers : ∀ o ∈ x.2, o.artifact = artifact ∧ o.text ≠ ""

/-! ## Calls -/

section Calls

variable {sink : Sink (StateM ω)} {artifact : Artifact} {text : String} {phase : Phase}

theorem start_holds :
    Triple (Holds artifact text phase)
      (start artifact : Buffering (StateM (ω × List Offered)) Unit)
      (fun _ => Holds artifact text .opened) (fun _ => Holds artifact text phase) := by
  intro b x hb
  rw [start_apply]
  split
  · exact ⟨hb.text, rfl, hb.offers⟩
  · exact hb

/-- A text that is pushed waits. -/
theorem push_holds (more : String) :
    Triple (Holds artifact text phase)
      (push more : Buffering (StateM (ω × List Offered)) Unit)
      (fun _ => Holds artifact (text ++ more) phase) (fun _ _ _ => False) := by
  intro b x hb
  rw [push_apply]
  refine ⟨?_, hb.phase, hb.offers⟩
  rw [← hb.text, String.append_assoc]

/-- A text that the sink refuses stays pending, and one that it takes does not. -/
theorem flush_holds :
    Triple (Holds artifact text phase) (flush sink.observed artifact)
      (fun _ b x => Holds artifact text phase b x ∧ b.pending = "")
      (fun _ => Holds artifact text phase) := by
  intro b ⟨v, offers⟩ hb
  rw [flush_apply, Sink.offer]
  by_cases hempty : b.pending = ""
  · rw [if_pos hempty]
    exact ⟨⟨hempty ▸ hb.text, hb.phase, hb.offers⟩, rfl⟩
  · rw [if_neg hempty]
    have hoffers : ∀ taken, ∀ o ∈ offers ++ [⟨artifact, b.pending, taken⟩],
        o.artifact = artifact ∧ o.text ≠ "" := by
      intro taken o ho
      rcases List.mem_append.mp ho with ho | ho
      · exact hb.offers o ho
      · rw [List.mem_singleton.mp ho]
        exact ⟨rfl, hempty⟩
    simp only [Sink.observed]
    rcases sink.append artifact b.pending v with ⟨_ | _, v'⟩
    · refine ⟨?_, hb.phase, hoffers _⟩
      rw [appended_concat]
      simpa [Except.isOk, Except.toBool] using hb.text
    · refine ⟨⟨?_, hb.phase, hoffers _⟩, rfl⟩
      rw [appended_concat]
      simpa [Except.isOk, Except.toBool] using hb.text

/-- A buffer is closed once nothing is pending any more. -/
theorem close_holds :
    Triple (Holds artifact text phase) (close sink.observed artifact)
      (fun _ b x => Holds artifact text .sealed b x ∧ b.pending = "")
      (fun _ => Holds artifact text phase) := by
  have hrequire : Triple (Holds artifact text phase)
      (require artifact .exports .opened : Buffering (StateM (ω × List Offered)) Unit)
      (fun _ => Holds artifact text phase) (fun _ => Holds artifact text phase) := by
    intro b x hb
    rw [require_apply]
    split <;> exact hb
  refine hrequire.bind fun _ => flush_holds.bind fun _ => ?_
  intro b x ⟨hb, hpending⟩
  exact ⟨⟨hb.text, rfl, hb.offers⟩, hpending⟩

/-- What a call keeps, whether it succeeds or fails, and what else it has done when it succeeds. -/
theorem answer_holds (sink : Sink (StateM ω)) (call : Call) :
    Triple (Holds artifact text phase) (answer sink.observed artifact call)
      (fun _ b x => Holds artifact (text ++ call.text) b.phase b x ∧
        (call = .flush ∨ call = .close → b.pending = "") ∧
        (b.phase = .sealed → phase = .sealed ∨ call = .close))
      (fun _ => Holds artifact (text ++ call.text) phase) := by
  cases call with
  | start =>
    simp only [answer, Call.text, String.append_empty]
    refine start_holds.weaken (fun _ _ => id) (fun _ b x hb => ?_) fun _ _ _ => id
    refine ⟨hb.phase.symm ▸ hb, by simp, fun hsealed => ?_⟩
    rw [hb.phase] at hsealed
    cases hsealed
  | push more =>
    refine (push_holds more).weaken (fun _ _ => id) (fun _ b x hb => ?_) fun _ _ _ => False.elim
    exact ⟨hb.phase.symm ▸ hb, by simp, fun hsealed => .inl (hb.phase.symm.trans hsealed)⟩
  | flush =>
    simp only [answer, Call.text, String.append_empty]
    refine flush_holds.weaken (fun _ _ => id) (fun _ b x ⟨hb, hpending⟩ => ?_) fun _ _ _ => id
    exact ⟨hb.phase.symm ▸ hb, fun _ => hpending,
      fun hsealed => .inl (hb.phase.symm.trans hsealed)⟩
  | close =>
    simp only [answer, Call.text, String.append_empty]
    refine close_holds.weaken (fun _ _ => id) (fun _ b x ⟨hb, hpending⟩ => ?_) fun _ _ _ => id
    exact ⟨hb.phase.symm ▸ hb, fun _ => hpending, fun _ => .inr trivial⟩

variable {now : Buffer × ω × List Offered}

/-- What a call does to a buffer that has lost nothing. Only a close that succeeds closes it. -/
theorem perform_spec (sink : Sink (StateM ω))
    (h : Holds artifact text now.1.phase now.1 now.2) (call : Call) :
    let outcome := (answer sink.observed artifact call now.1 now.2).1.1
    let next := perform sink.observed artifact now call
    Holds artifact (text ++ call.text) next.1.phase next.1 next.2 ∧
      (outcome = .ok () → call = .flush ∨ call = .close → next.1.pending = "") ∧
      (next.1.phase = .sealed → now.1.phase = .sealed ∨ call = .close ∧ outcome = .ok ()) := by
  have hafter := answer_holds sink call now.1 now.2 h
  rw [perform]
  revert hafter
  rcases answer sink.observed artifact call now.1 now.2 with ⟨⟨_ | _, b⟩, x⟩
  · intro hb
    exact ⟨hb.phase.symm ▸ hb, nofun, fun hsealed => .inl (hb.phase.symm.trans hsealed)⟩
  · rintro ⟨hb, hpending, hsealed⟩
    exact ⟨hb, fun _ => hpending, fun h => (hsealed h).imp_right fun hclose => ⟨hclose, rfl⟩⟩

/-- Nothing is pending after a flush or a close that succeeds, so that all has been appended. -/
theorem perform_settled (h : Holds artifact text now.1.phase now.1 now.2) {call : Call}
    (hcall : call = .flush ∨ call = .close)
    (hok : (answer sink.observed artifact call now.1 now.2).1.1 = .ok ()) :
    (perform sink.observed artifact now call).1.pending = "" ∧
      appended artifact (perform sink.observed artifact now call).2.2 = text := by
  obtain ⟨hnext, hpending, -⟩ := perform_spec sink h call
  have hnone := hpending hok hcall
  have htext : text ++ call.text = text := by
    rcases hcall with rfl | rfl <;> exact String.append_empty
  have hall := hnext.text.trans htext
  rw [hnone, String.append_empty] at hall
  exact ⟨hnone, hall⟩

end Calls

/-! ## Sequences of calls -/

/-- Nothing is lost or appended twice, whatever is called. -/
theorem performAll_holds (sink : Sink (StateM ω)) (artifact : Artifact) (v : ω)
    (calls : List Call) :
    let now := performAll sink.observed artifact calls (fresh, (v, []))
    Holds artifact (pushed calls) now.1.phase now.1 now.2 := by
  induction calls using List.reverseRecOn with
  | nil => exact ⟨rfl, rfl, nofun⟩
  | append_singleton calls call ih =>
    rw [performAll, List.foldl_append, pushed_concat]
    exact (perform_spec sink ih call).1

/-- After any calls, what was pushed has been appended up to what is pending, and no append was
empty. A flush or a close that succeeds leaves nothing pending. The call that closes the buffer is a
close, after which everything that was pushed has been appended. -/
theorem pushed_once (sink : Sink (StateM ω)) (artifact : Artifact) (v : ω) (calls : List Call) :
    let now := performAll sink.observed artifact calls (fresh, (v, []))
    appended artifact now.2.2 ++ now.1.pending = pushed calls ∧
    (∀ o ∈ now.2.2, o.artifact = artifact ∧ o.text ≠ "") ∧
    ∀ call,
      let next := perform sink.observed artifact now call
      (call = .flush ∨ call = .close →
        (answer sink.observed artifact call now.1 now.2).1.1 = .ok () →
          next.1.pending = "" ∧ appended artifact next.2.2 = pushed calls) ∧
      (now.1.phase ≠ .sealed → next.1.phase = .sealed →
        call = .close ∧ next.1.pending = "" ∧ appended artifact next.2.2 = pushed calls) := by
  intro now
  have hnow : Holds artifact (pushed calls) now.1.phase now.1 now.2 :=
    performAll_holds sink artifact v calls
  refine ⟨hnow.text, hnow.offers, fun call => ⟨perform_settled hnow, fun hopen hsealed => ?_⟩⟩
  obtain ⟨-, -, hclosed⟩ := perform_spec sink hnow call
  obtain ⟨hclose, hok⟩ := (hclosed hsealed).resolve_left hopen
  exact ⟨hclose, perform_settled hnow (.inr hclose) hok⟩

def hesitant : Sink (StateM Bool) where
  create _ := pure (.ok ())
  append _ _ := fun ready => (if ready then .ok () else .error (.other "no space left"), true)

theorem pushed_once_of_refused :
    let now := performAll hesitant.observed .routes [.start, .push "a", .flush, .push "b"]
      (fresh, (false, []))
    let next := perform hesitant.observed .routes now .close
    now = (⟨.opened, "ab"⟩, (true, [⟨.routes, "a", false⟩])) ∧
      next.1.phase = .sealed ∧ next.1.pending = "" ∧ appended .routes next.2.2 = "ab" := by
  intro now next
  have hnow : now = (⟨.opened, "ab"⟩, (true, [⟨.routes, "a", false⟩])) := by decide +kernel
  have hnext : next.1.phase = .sealed := by decide +kernel
  obtain ⟨-, hpending, htext⟩ := ((pushed_once hesitant .routes false
    [.start, .push "a", .flush, .push "b"]).2.2 .close).2 (by decide +kernel) hnext
  exact ⟨hnow, hnext, hpending, htext⟩

end Buffer

end LinkedApi
