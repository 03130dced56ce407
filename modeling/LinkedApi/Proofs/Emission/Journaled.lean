import LinkedApi.Proofs.Emission.Journal
import LinkedApi.Proofs.Emission.Run

/-!
# Emissions beside a journal

What is appended beside a journal is tracked by the journal, whatever the sink does with it, and
what is fetched is what the transport loads. A journal knows nothing of what the artifacts were
before they were created, and creation notes nothing.
-/

namespace LinkedApi

variable {ω : Type}

@[simp]
theorem Sink.createAll_journaled (sink : Sink (StateM ω)) (artifacts : List Artifact) (v : ω)
    (journal : Journal) :
    sink.journaled.createAll artifacts (v, journal) =
      ((sink.createAll artifacts v).1, ((sink.createAll artifacts v).2, journal)) := by
  induction artifacts generalizing v with
  | nil => rfl
  | cons artifact rest ih =>
    simp only [createAll, journaled, bind, StateT.bind]
    rcases sink.create artifact v with ⟨cause | ⟨⟩, v'⟩
    · rfl
    · exact ih v'

/-- The journal knows what any sink has appended, and any append may fail. -/
theorem Sink.journaled_tracks (sink : Sink (StateM ω)) :
    sink.journaled.Tracks (fun texts v => v.2.text = texts) (fun _ => True) := by
  constructor
  rintro texts ⟨v, journal⟩ artifact more rfl
  simp only [Sink.journaled]
  rcases sink.append artifact more v with ⟨cause | _, v'⟩
  · trivial
  · exact Journal.text_append journal artifact more

theorem Transport.journaled_tracks (transport : Transport (StateM ω)) :
    transport.journaled.Tracks (fun texts v => v.2.text = texts) transport.Loaded
      (fun _ => True) := by
  constructor
  rintro texts ⟨v, journal⟩ refs rfl
  rw [Loading.load_journaled]
  cases hloaded : (Loading.load transport refs v).1 with
  | error cause => trivial
  | ok chain => exact ⟨⟨v, hloaded⟩, rfl⟩

/-- A journal changes nothing of what is fetched. -/
theorem Transport.Tracks.journaled {transport : Transport (StateM ω)} {held : Texts → ω → Prop}
    {loads : List PipeReference → List PipeModule → Prop} {unloaded : LoadingError → Prop}
    (h : transport.Tracks held loads unloaded) :
    transport.journaled.Tracks (fun texts v => held texts v.1) loads unloaded := by
  constructor
  rintro texts ⟨v, journal⟩ refs hheld
  have hload := h.load texts v refs hheld
  rw [Loading.load_journaled]
  revert hload
  rcases Loading.load transport refs v with ⟨_ | chain, v'⟩ <;> exact id

def Sink.accepting : Sink (StateM Unit) where
  create _ := pure (.ok ())
  append _ _ := pure (.ok ())

theorem Sink.accepting_tracks :
    Sink.accepting.journaled.Tracks (fun _ _ => True) (fun _ => False) :=
  ⟨fun _ _ _ _ _ => trivial⟩

end LinkedApi
