import LinkedApi.Proofs.Compilation.ClosedForm
import LinkedApi.Proofs.Sink.Files

/-!
# Sinks that agree

A sink in files and a sink in memory that both start without artifacts accept and refuse the same
calls, and hold the same texts. Until the first artifact is created the directory need not be there,
so that nothing is appended; afterwards each artifact is in its file or there is none.
-/

namespace LinkedApi.Sink

open FileSystem

variable {directory : String} {artifact : Artifact} {fs made : FileSystem} {r : Recordings}

inductive Call where
  | create (artifact : Artifact)
  | append (artifact : Artifact) (text : String)

section Answers

variable {m : Type → Type} [Monad m]

def answer (sink : Sink m) : Call → m (Except FileError Unit)
  | .create artifact => sink.create artifact
  | .append artifact text => sink.append artifact text

def acceptsEach (sink : Sink m) : List Call → m (List Bool)
  | [] => return []
  | call :: rest => do
    let outcome ← sink.answer call
    return outcome.isOk :: (← sink.acceptsEach rest)

end Answers

@[simp]
theorem acceptsEach_cons {ω : Type} (sink : Sink (StateM ω)) (call : Call) (rest : List Call)
    (v : ω) :
    sink.acceptsEach (call :: rest) v =
      ((sink.answer call v).1.isOk :: (sink.acceptsEach rest (sink.answer call v).2).1,
        (sink.acceptsEach rest (sink.answer call v).2).2) := rfl

/-- Each artifact that has been created is in its file as it is in memory, and there is no file of
one that has not been created. -/
def Mirrors (directory : String) (fs : FileSystem) (r : Recordings) : Prop :=
  ∀ artifact, match r artifact with
    | some recording => fs.readBytes (filePath directory artifact) = .ok recording.text.toUTF8
    | none => fs.exists? (filePath directory artifact) = false

/-- The directory can be made. Once it is made none of the artifacts is in it, and each can be
written. -/
def Ready (directory : String) (fs : FileSystem) : Prop :=
  ∃ made, fs.makeDirectories directory = .ok made ∧
    ∀ artifact, made.exists? (filePath directory artifact) = false ∧
      ∃ written, made.writeText (filePath directory artifact) "" = .ok written

def bytesOf (r : Recordings) (artifact : Artifact) : Option ByteArray :=
  (r artifact).map (·.text.toUTF8)

/-- The directory is there, with the artifacts that are in memory and no others. -/
structure Holds (directory : String) (fs : FileSystem) (r : Recordings) : Prop where
  ground : fs.HasDirectory directory
  files : ∀ artifact, ∃ place, FileAt directory fs artifact place (bytesOf r artifact)

/-- Nothing has been created yet, or the directory is there. -/
inductive Alike (directory : String) : FileSystem → Recordings → Prop where
  | untouched {fs : FileSystem} (h : Ready directory fs) : Alike directory fs Recordings.none
  | begun {fs : FileSystem} {r : Recordings} (h : Holds directory fs r) : Alike directory fs r

/-! ## Sinks that have begun -/

@[simp]
theorem bytesOf_set (r : Recordings) (artifact : Artifact) (recording : Recording)
    (other : Artifact) :
    bytesOf (r.set artifact recording) other =
      if other = artifact then some recording.text.toUTF8 else bytesOf r other := by
  unfold bytesOf Recordings.set
  split <;> rfl

/-- What is written to the file of an artifact and recorded in memory is alike in both. -/
theorem Holds.write {place : Place} {content : Option ByteArray} (h : Holds directory fs r)
    (hfile : FileAt directory fs artifact place content) (recording : Recording) :
    Holds directory (fs.set place (.file recording.text.toUTF8)) (r.set artifact recording) := by
  refine ⟨h.ground.set (ne_directory_of_target hfile) _, fun other => ?_⟩
  rw [bytesOf_set]
  by_cases hother : other = artifact
  · rw [if_pos hother, hother]
    exact ⟨place, hfile.write _⟩
  · rw [if_neg hother]
    obtain ⟨at_, hat⟩ := h.files other
    exact ⟨at_, hfile.write_other hat hother _⟩

theorem Holds.mirrors (h : Holds directory fs r) : Mirrors directory fs r := by
  intro artifact
  have hpath := namesDirectory_filePath directory artifact
  obtain ⟨place, hfile⟩ := h.files artifact
  unfold bytesOf at hfile
  cases hrecording : r artifact with
  | none =>
    rw [hrecording] at hfile
    exact exists?_of_target hpath hfile
  | some recording =>
    rw [hrecording] at hfile
    exact readBytes_of_target hpath hfile

/-- From a directory that is ready, both sinks start alike. -/
theorem Ready.holds (h : Ready directory fs) :
    ∃ made, fs.makeDirectories directory = .ok made ∧ Holds directory made Recordings.none := by
  obtain ⟨made, hmade, hready⟩ := h
  obtain ⟨-, hdirectory⟩ := makeDirectories_spec hmade
  refine ⟨made, hmade, hdirectory, fun artifact => ?_⟩
  obtain ⟨hmissing, written, hwritten⟩ := hready artifact
  obtain ⟨place, content, htarget, -⟩ := writeText_ok hwritten
  rw [exists?_of_target (namesDirectory_filePath directory artifact) htarget] at hmissing
  rw [Option.isSome_eq_false_iff, Option.isNone_iff_eq_none] at hmissing
  subst hmissing
  exact ⟨place, htarget⟩

/-- Before the directory is made, no path of an artifact leads to anything either. -/
theorem Ready.target_ne (h : Ready directory fs) (artifact : Artifact) (place : Place)
    (entry : Entry) : fs.target (filePath directory artifact) ≠ .ok (.entry place entry) := by
  intro htarget
  obtain ⟨made, hmade, hholds⟩ := h.holds
  obtain ⟨hgrows, -⟩ := makeDirectories_spec hmade
  obtain ⟨at_, hat⟩ := hholds.files artifact
  cases Except.ok.inj ((hgrows.target_ok htarget).symm.trans hat)

theorem Ready.mirrors (h : Ready directory fs) : Mirrors directory fs Recordings.none := by
  intro artifact
  change fs.exists? (filePath directory artifact) = false
  unfold exists?
  split
  · next htarget => exact absurd htarget (h.target_ne artifact _ _)
  · next htarget => exact absurd htarget (h.target_ne artifact _ _)
  · rfl

theorem Alike.mirrors (h : Alike directory fs r) : Mirrors directory fs r := by
  cases h with
  | untouched hready => exact hready.mirrors
  | begun hholds => exact hholds.mirrors

/-! ## One call and many -/

/-- An artifact is created in files, where the directory is made for it, as it is in memory. -/
theorem create_alike (hmade : fs.makeDirectories directory = .ok made)
    (h : Holds directory made r) (artifact : Artifact) :
    ((files .ofState directory).create artifact fs).1.isOk = (memory.create artifact r).1.isOk ∧
      Alike directory ((files .ofState directory).create artifact fs).2
        (memory.create artifact r).2 := by
  obtain ⟨place, hfile⟩ := h.files artifact
  rw [hfile.create hmade]
  exact ⟨rfl, .begun (h.write hfile ⟨"", 0⟩)⟩

/-- An append to an artifact that has not been created is refused by a sink in memory. -/
theorem memory_append_refused (h : r artifact = none) (text : String) :
    memory.append artifact text r = (.error (.notCreated artifact.fileName), r) := by
  have happend : r.append artifact text = .error (.notCreated artifact.fileName) := by
    rw [Recordings.append, h]
  simp only [memory, bind, StateT.bind, get, getThe, MonadStateOf.get, StateT.get, pure]
  rw [happend]
  rfl

/-- When neither sink has an artifact, both refuse to append to it, and neither changes. -/
theorem append_refused (hmemory : r artifact = none)
    (hfiles : ∀ place bytes, ¬FileAt directory fs artifact place (some bytes)) (text : String)
    (h : Alike directory fs r) :
    ((files .ofState directory).append artifact text fs).1.isOk =
        (memory.append artifact text r).1.isOk ∧
      Alike directory ((files .ofState directory).append artifact text fs).2
        (memory.append artifact text r).2 := by
  obtain ⟨cause, hrefused⟩ := files_append_refused hfiles text
  rw [hrefused, memory_append_refused hmemory]
  exact ⟨rfl, h⟩

/-- Both sinks accept a call or refuse it, and are alike again. -/
theorem answer_alike (h : Alike directory fs r) (call : Call) :
    ((files .ofState directory).answer call fs).1.isOk = (memory.answer call r).1.isOk ∧
      Alike directory ((files .ofState directory).answer call fs).2 (memory.answer call r).2 := by
  cases call with
  | create artifact =>
    cases h with
    | untouched hready =>
      obtain ⟨made, hmade, hholds⟩ := hready.holds
      exact create_alike hmade hholds artifact
    | begun hholds =>
      exact create_alike (makeDirectories_of_hasDirectory hholds.ground) hholds artifact
  | append artifact text =>
    cases h with
    | untouched hready =>
      exact append_refused rfl (fun place bytes => hready.target_ne artifact place (.file bytes))
        text (.untouched hready)
    | begun hholds =>
      obtain ⟨place, hfile⟩ := hholds.files artifact
      cases hrecording : r artifact with
      | none =>
        rw [bytesOf, hrecording] at hfile
        refine append_refused hrecording (fun at_ bytes hother => ?_) text (.begun hholds)
        cases Except.ok.inj (hother.symm.trans hfile)
      | some recording =>
        have hwrite := hholds.write hfile ⟨recording.text ++ text, recording.appends + 1⟩
        rw [bytesOf, hrecording] at hfile
        have hbytes : (recording.text ++ text).toUTF8 = recording.text.toUTF8 ++ text.toUTF8 :=
          String.toByteArray_append
        rw [hbytes] at hwrite
        simp only [answer]
        rw [hfile.append text, Recordings.memory_append hrecording text]
        exact ⟨rfl, .begun hwrite⟩

/-- Both sinks accept the same calls and stay alike. -/
theorem acceptsEach_alike (h : Alike directory fs r) (calls : List Call) :
    ((files .ofState directory).acceptsEach calls fs).1 = (memory.acceptsEach calls r).1 ∧
      Alike directory ((files .ofState directory).acceptsEach calls fs).2
        (memory.acceptsEach calls r).2 := by
  induction calls generalizing fs r with
  | nil => exact ⟨rfl, h⟩
  | cons call rest ih =>
    obtain ⟨hsame, halike⟩ := answer_alike h call
    obtain ⟨hrest, hended⟩ := ih halike
    rw [acceptsEach_cons, acceptsEach_cons, hsame, hrest]
    exact ⟨rfl, hended⟩

end LinkedApi.Sink
