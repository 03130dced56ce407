import LinkedApi.Proofs.Emission.Steps

/-!
# Journals of emissions

A journal notes what has been appended to the artifacts, so that their texts are known at every
moment of a run, whatever the sink does. An emission is run by calls, each of which may fail; the
run goes on with the emission as the call leaves it.
-/

namespace LinkedApi

open Steps

variable {ω : Type}

/-- What has been appended to the artifacts, in order. -/
abbrev Journal := List (Artifact × String)

namespace Journal

def text (journal : Journal) : Texts := fun artifact =>
  String.join ((journal.filter (·.1 = artifact)).map (·.2))

theorem text_append (journal : Journal) (artifact : Artifact) (more : String) :
    text (journal ++ [(artifact, more)]) = Texts.extend journal.text artifact more := by
  funext other
  rw [text, List.filter_append, Texts.extend]
  by_cases hother : other = artifact
  · subst hother
    simp [text, String.join_append]
  · have hne : artifact ≠ other := fun h => hother h.symm
    simp [text, hother, hne]

theorem text_concat (journal more : Journal) (artifact : Artifact) :
    text (journal ++ more) artifact = text journal artifact ++ text more artifact := by
  rw [text, List.filter_append, List.map_append, String.join_append]
  rfl

/-- Something held of the texts at every moment so far. -/
def Always (P : Texts → Prop) (journal : Journal) : Prop := ∀ n, P (text (journal.take n))

theorem Always.now {P : Texts → Prop} {journal : Journal} (h : journal.Always P) : P journal.text := by
  have hall := h journal.length
  rwa [List.take_length] at hall

theorem Always.of_eq {P : Texts → Prop} {journal journal' : Journal} (h : journal.Always P)
    (hsame : journal' = journal) : journal'.Always P := hsame ▸ h

/-- What always held still always holds if it holds after one more text. -/
theorem Always.append {P : Texts → Prop} {journal : Journal} (h : journal.Always P)
    {artifact : Artifact} {more : String} (hnow : P (text (journal ++ [(artifact, more)]))) :
    Always P (journal ++ [(artifact, more)]) := by
  intro n
  by_cases hn : n ≤ journal.length
  · rw [List.take_append_of_le_length hn]
    exact h n
  · rw [List.take_of_length_le (by simp; omega)]
    exact hnow

end Journal

def Sink.journaled (sink : Sink (StateM ω)) : Sink (StateM (ω × Journal)) where
  create artifact := fun (v, journal) =>
    ((sink.create artifact v).1, ((sink.create artifact v).2, journal))
  append artifact text := fun (v, journal) =>
    match sink.append artifact text v with
    | (.ok (), v') => (.ok (), (v', journal ++ [(artifact, text)]))
    | (.error cause, v') => (.error cause, (v', journal))

/-- A text that is delivered is noted unless the append fails. -/
theorem Writers.deliver_journaled (sink : Sink (StateM ω)) (artifact : Artifact) (more : String)
    (phase : Phase) (w : Writers) (v : ω × Journal) :
    After
      (fun _ w' v' => w' = w.setBuffer artifact ⟨phase, ""⟩ ∧
        v'.2.text = v.2.text.extend artifact more ∧
        ∀ P, v.2.Always P → P v'.2.text → v'.2.Always P)
      (fun _ w' v' => w' = w.setBuffer artifact ⟨.opened, more⟩ ∧ v'.2 = v.2)
      (deliver sink.journaled artifact more phase w v) := by
  obtain ⟨v, journal⟩ := v
  simp only [deliver, Sink.offer]
  by_cases hmore : more = ""
  · rw [if_pos hmore, hmore]
    exact ⟨rfl, (Texts.extend_empty _ _).symm, fun P h _ => h⟩
  · rw [if_neg hmore]
    simp only [Sink.journaled]
    rcases sink.append artifact more v with ⟨cause | _, v'⟩
    · exact ⟨rfl, rfl⟩
    · exact ⟨rfl, Journal.text_append journal artifact more, fun P h hnow => h.append hnow⟩

def Transport.journaled (transport : Transport (StateM ω)) : Transport (StateM (ω × Journal)) where
  name := transport.name
  fetchAll locations := fun (v, journal) =>
    ((transport.fetchAll locations v).1, ((transport.fetchAll locations v).2, journal))

@[simp]
theorem Loading.load_journaled (transport : Transport (StateM ω)) (refs : List PipeReference)
    (v : ω) (journal : Journal) :
    load transport.journaled refs (v, journal) =
      ((load transport refs v).1, ((load transport refs v).2, journal)) := by
  unfold load
  split <;> rfl

/-- A chain is what the transport has loaded for it. -/
def Transport.Loaded (transport : Transport (StateM ω)) (refs : List PipeReference)
    (chain : List PipeModule) : Prop := ∃ v, (Loading.load transport refs v).1 = .ok chain

/-- A chain is loaded beside a journal if it is loaded without one. -/
@[simp]
theorem Transport.loaded_journaled {transport : Transport (StateM ω)} {refs : List PipeReference}
    {chain : List PipeModule} :
    transport.journaled.Loaded refs chain ↔ transport.Loaded refs chain := by
  constructor
  · rintro ⟨⟨v, journal⟩, h⟩
    rw [Loading.load_journaled] at h
    exact ⟨v, h⟩
  · rintro ⟨v, h⟩
    refine ⟨(v, []), ?_⟩
    rwa [Loading.load_journaled]

namespace Emission

inductive Call where
  | begin
  | emit (op : Operation)
  | finish

def perform (sink : Sink (StateM ω)) (transport : Transport (StateM ω)) :
    Call → Emission × ω → Emission × ω
  | .begin, (e, v) => ((begin sink e v).1.2, (begin sink e v).2)
  | .emit op, (e, v) => ((emit sink transport op e v).1.2, (emit sink transport op e v).2)
  | .finish, (e, v) => ((finish sink e v).1.2, (finish sink e v).2)

def performAll (sink : Sink (StateM ω)) (transport : Transport (StateM ω)) :
    List Call → Emission × ω → Emission × ω
  | [], now => now
  | call :: rest, now => performAll sink transport rest (perform sink transport call now)

@[simp]
theorem gathered_journaled (transport : Transport (StateM ω)) (op : Operation) (v : ω)
    (journal : Journal) :
    gathered transport.journaled op (v, journal) =
      ((gathered transport op v).1, ((gathered transport op v).2, journal)) := by
  unfold gathered
  cases op.declaration with
  | error cause => rfl
  | ok declaration =>
    dsimp only
    rw [Loading.load_journaled]
    rcases Loading.load transport declaration.pipes v with ⟨_ | chain, v'⟩ <;> rfl

/-- Nothing is noted while the chain of an operation is loaded. -/
@[simp]
theorem gathered_journal (transport : Transport (StateM ω)) (op : Operation) (v : ω × Journal) :
    (gathered transport.journaled op v).2.2 = v.2 := by
  rw [gathered_journaled]

/-! ## What is gathered -/

def Call.operation? : Call → Option Operation
  | .emit op => some op
  | _ => none

def operations (calls : List Call) : List Operation := calls.filterMap Call.operation?

@[simp]
theorem mem_operations {calls : List Call} {op : Operation} :
    op ∈ operations calls ↔ .emit op ∈ calls := by
  rw [operations, List.mem_filterMap]
  constructor
  · rintro ⟨_ | op | _, hcall, ⟨⟩⟩
    exact hcall
  · exact fun hcall => ⟨_, hcall, rfl⟩

/-- One of some operations declares this, and this chain has been loaded for it. -/
def Gathers (transport : Transport (StateM ω)) (ops : List Operation) (declaration : Declaration)
    (chain : List PipeModule) : Prop :=
  ∃ op ∈ ops, op.declaration = .ok declaration ∧ transport.Loaded declaration.pipes chain

/-- What is gathered for an operation is what it declares, with its chain as it is loaded. -/
theorem gathered_ok {transport : Transport (StateM ω)} {op : Operation} {declaration : Declaration}
    {chain : List PipeModule} {v v' : ω}
    (h : gathered transport op v = (.ok (declaration, chain), v')) :
    op.declaration = .ok declaration ∧ transport.Loaded declaration.pipes chain := by
  unfold gathered at h
  split at h
  · cases h
  · next declared hdeclared =>
    split at h
    · cases h
    · next loaded v'' hloaded =>
      cases h
      exact ⟨hdeclared, v, congrArg Prod.fst hloaded⟩

@[simp]
theorem gathers_journaled {transport : Transport (StateM ω)} {ops : List Operation}
    {declaration : Declaration} {chain : List PipeModule} :
    Gathers transport.journaled ops declaration chain ↔ Gathers transport ops declaration chain := by
  simp only [Gathers, Transport.loaded_journaled]

/-! ## Invariants -/

/-- What the parts of the calls keep, stage by stage, where only some operations are emitted. A part
that fails leaves the stage between. -/
structure Invariant (sink : Sink (StateM ω)) (transport : Transport (StateM ω))
    (ops : List Operation) (P : Stage → Writers → ω → Prop) : Prop where
  begin : Triple (P .idle) (Writers.beginAll sink) (fun _ => P .emitting) (fun _ => P .prewriting)
  gather : ∀ op w v, P .emitting w v → P .emitting w (gathered transport op v).2
  emit : ∀ declaration chain, Gathers transport ops declaration chain →
    Triple (P .emitting) (Writers.emitAll sink declaration chain)
      (fun _ => P .emitting) (fun _ => P .emitting)
  finish : Triple (P .emitting) (Writers.closeAll sink) (fun _ => P .done)
    (fun _ => P .postwriting)

variable {sink : Sink (StateM ω)} {transport : Transport (StateM ω)} {ops : List Operation}
  {P : Stage → Writers → ω → Prop}

def Holds (P : Stage → Writers → ω → Prop) (now : Emission × ω) : Prop :=
  P now.1.stage now.1.writers now.2

/-- A call keeps an invariant, whichever of its parts fails. -/
theorem Invariant.perform (h : Invariant sink transport ops P) {call : Call}
    (hcall : ∀ op, call = .emit op → op ∈ ops) {now : Emission × ω} (hnow : Holds P now) :
    Holds P (perform sink transport call now) := by
  obtain ⟨⟨stage, w⟩, v⟩ := now
  let kept (e : Emission) (v : ω) : Prop := P e.stage e.writers v
  have hkept : kept ⟨stage, w⟩ v := hnow
  cases call with
  | begin =>
    refine (after_state (P := kept)).mp (begin_after (fun _ => hkept) ?_)
    rintro rfl
    exact h.begin w v hnow
  | emit op =>
    have hgathered (hstage : stage = .emitting) : P stage w (gathered transport op v).2 := by
      subst hstage
      exact h.gather op w v hnow
    refine (after_state (P := kept)).mp (emit_after (fun _ => hkept) ?_ ?_)
    · rintro cause v' hstage hlost
      have hleft := hgathered hstage
      rwa [hlost] at hleft
    · rintro declaration chain v' hstage hfound
      have hleft := hgathered hstage
      obtain rfl : stage = .emitting := hstage
      rw [hfound] at hleft
      exact h.emit declaration chain ⟨op, hcall op rfl, gathered_ok hfound⟩ w v' hleft
  | finish =>
    refine (after_state (P := kept)).mp (finish_after (fun _ => hkept) ?_)
    rintro rfl
    exact h.finish w v hnow

/-- Calls keep an invariant from the first to the last. -/
theorem Invariant.performAll (h : Invariant sink transport ops P) {calls : List Call}
    (hcalls : operations calls ⊆ ops) {now : Emission × ω} (hnow : Holds P now) :
    Holds P (performAll sink transport calls now) := by
  induction calls generalizing now with
  | nil => exact hnow
  | cons call rest ih =>
    have hfirst : ∀ op, call = .emit op → op ∈ ops := by
      rintro op rfl
      exact hcalls (mem_operations.mpr List.mem_cons_self)
    have hrest : operations rest ⊆ ops := fun op hop =>
      hcalls (mem_operations.mpr (List.mem_cons_of_mem _ (mem_operations.mp hop)))
    exact ih hrest (h.perform hfirst hnow)

end Emission

end LinkedApi
