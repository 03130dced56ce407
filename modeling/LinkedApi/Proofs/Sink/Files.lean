import LinkedApi.Proofs.Emission.Layout
import LinkedApi.Proofs.FileSystem
import LinkedApi.Proofs.Text.Split

/-!
# Artifacts in files

The file of an artifact is where its path leads. Different artifacts are in different files, since
the last step to a file is its name. So what is written for one artifact leaves the others, and all
other files, as they are.
-/

namespace LinkedApi

open FileSystem Outcome

variable {directory : String} {artifact other : Artifact} {fs fs' made written : FileSystem}
  {place at_ : Place} {content was : Option ByteArray}

/-! ## Paths of artifacts -/

namespace Artifact

theorem fileName_injective : Function.Injective fileName := by
  rintro (_ | _ | _) (_ | _ | _) h <;> first | rfl | exact absurd h (by decide)

theorem not_mem_fileName (artifact : Artifact) : '/' ∉ artifact.fileName.toList := by
  cases artifact <;> decide

end Artifact

namespace Sink

/-- What stands before the name of a file ends in a slash. -/
theorem toList_filePath (directory : String) (artifact : Artifact) :
    ∃ front : List Char, (filePath directory artifact).toList = front ++ artifact.fileName.toList ∧
      (front = [] ∨ ∃ above, front = above ++ ['/']) := by
  unfold filePath Path.append
  split
  · next h =>
    refine ⟨directory.toList, String.toList_append, ?_⟩
    rcases h with hempty | hslash
    · exact .inl (by rw [String.isEmpty_iff.mp hempty]; rfl)
    · exact .inr (List.getLast?_eq_some_iff.mp hslash)
  · refine ⟨directory.toList ++ ['/'], ?_, .inr ⟨directory.toList, rfl⟩⟩
    rw [String.toList_append, String.toList_append]
    rfl

/-- The last step on the path to a file is its name. -/
@[simp]
theorem getLast?_steps_filePath (directory : String) (artifact : Artifact) :
    (steps (filePath directory artifact)).getLast? = some artifact.fileName := by
  obtain ⟨front, hpath, hfront⟩ := toList_filePath directory artifact
  have hname := Text.splitAt_of_not_mem artifact.not_mem_fileName
  have hkept : artifact.fileName ≠ "" := by cases artifact <;> decide
  rw [steps, hpath]
  rcases hfront with rfl | ⟨above, rfl⟩
  · rw [List.nil_append, hname]
    simp [hkept]
  · rw [List.append_assoc, List.singleton_append, Text.splitAt_append, hname]
    simp [hkept]

/-- The path of an artifact does not end in a slash. -/
@[simp]
theorem namesDirectory_filePath (directory : String) (artifact : Artifact) :
    namesDirectory (filePath directory artifact) = false := by
  obtain ⟨front, hpath, -⟩ := toList_filePath directory artifact
  have hlast : artifact.fileName.toList.getLast? = some 's' := by cases artifact <;> decide
  refine Bool.eq_false_iff.mpr fun hslash => ?_
  rw [namesDirectory, ← String.endsWith_toSlice, String.Slice.endsWith_string_iff,
    String.copy_toSlice, hpath] at hslash
  obtain ⟨before, hends⟩ := hslash
  have hsame := congrArg List.getLast? hends
  rw [List.getLast?_append, List.getLast?_append, hlast] at hsame
  exact absurd (Option.some.inj hsame) (by decide)

/-- The path of an artifact leads to a place, and this is what the file holds that is there. -/
def FileAt (directory : String) (fs : FileSystem) (artifact : Artifact) (place : Place)
    (content : Option ByteArray) : Prop :=
  fs.target (filePath directory artifact) = .ok (.holding place content)

namespace FileAt

theorem getLast? (h : FileAt directory fs artifact place content) :
    place.getLast? = some artifact.fileName := by
  obtain ⟨start, hleads⟩ := leads_of_target h
  obtain ⟨name, hsteps, hname⟩ := hleads.getLast?
  rw [getLast?_steps_filePath] at hsteps
  rw [hname, hsteps]

/-- Different artifacts are at different places, also at different times. -/
theorem ne (h : FileAt directory fs artifact place content)
    (hother : FileAt directory fs' other at_ was) (hne : other ≠ artifact) : at_ ≠ place := by
  rintro rfl
  have hsame := hother.getLast?.symm.trans h.getLast?
  exact hne (Artifact.fileName_injective (Option.some.inj hsame))

theorem write (h : FileAt directory fs artifact place content) (bytes : ByteArray) :
    FileAt directory (fs.set place (.file bytes)) artifact place (some bytes) := by
  have htarget := target_write h h bytes
  rwa [if_pos rfl] at htarget

theorem write_other (h : FileAt directory fs artifact place content)
    (hother : FileAt directory fs other at_ was) (hne : other ≠ artifact) (bytes : ByteArray) :
    FileAt directory (fs.set place (.file bytes)) other at_ was := by
  have htarget := target_write h hother bytes
  rwa [if_neg (h.ne hother hne)] at htarget

/-- What stands at another place is not touched. -/
theorem entry?_write (h : FileAt directory fs artifact place content) (hne : at_ ≠ place)
    (bytes : ByteArray) : FileSystem.entry? (fs.set place (.file bytes)) at_ = fs.entry? at_ := by
  rw [entry?_set (ne_nil_of_not_directory (ne_directory_of_target h)), if_neg hne]

end FileAt

/-! ## Creating and appending -/

end Sink

theorem FileAccess.change_apply (operation : FileSystem → Except FileError FileSystem)
    (fs : FileSystem) :
    change operation fs =
      match operation fs with
      | .ok changed => (.ok (), changed)
      | .error cause => (.error cause, fs) := by
  simp only [change, bind, StateT.bind, get, getThe, MonadStateOf.get, StateT.get, pure]
  cases operation fs <;> rfl

namespace Sink

theorem files_create (directory : String) (artifact : Artifact) (fs : FileSystem) :
    (files .ofState directory).create artifact fs =
      match fs.makeDirectories directory with
      | .ok made => FileAccess.change (·.writeText (filePath directory artifact) "") made
      | .error cause => (.error cause, fs) := by
  change (FileAccess.change (·.makeDirectories directory) >>= _) fs = _
  simp only [bind, StateT.bind]
  rw [FileAccess.change_apply (·.makeDirectories directory)]
  cases fs.makeDirectories directory <;> rfl

theorem files_append (directory : String) (artifact : Artifact) (text : String) (fs : FileSystem) :
    (files .ofState directory).append artifact text fs =
      FileAccess.change (·.appendText (filePath directory artifact) text) fs := rfl

/-- An artifact that has been created has an empty file in its directory. -/
theorem files_create_ok
    (h : (files .ofState directory).create artifact fs = (.ok (), written)) :
    ∃ made place content, fs.makeDirectories directory = .ok made ∧
      FileAt directory made artifact place content ∧
      written = made.set place (.file "".toUTF8) := by
  rw [files_create] at h
  split at h
  · next made hmade =>
    rw [FileAccess.change_apply] at h
    split at h
    · next changed hwritten =>
      cases h
      obtain ⟨place, content, htarget, rfl⟩ := writeText_ok hwritten
      exact ⟨made, place, content, hmade, htarget, rfl⟩
    · cases h
  · cases h

/-- An artifact is created where its file is, or can be. -/
theorem FileAt.create (hmade : fs.makeDirectories directory = .ok made)
    (h : FileAt directory made artifact place content) :
    (files .ofState directory).create artifact fs = (.ok (), made.set place (.file "".toUTF8)) := by
  have hwrite := writeText_of_target (namesDirectory_filePath directory artifact) h ""
  rw [files_create, hmade]
  simp only [FileAccess.change_apply, hwrite]

/-- A text is appended to what the file of the artifact holds. -/
theorem FileAt.append {bytes : ByteArray}
    (h : FileAt directory fs artifact place (some bytes)) (text : String) :
    (files .ofState directory).append artifact text fs =
      (.ok (), fs.set place (.file (bytes ++ text.toUTF8))) := by
  have happend := appendText_of_target (namesDirectory_filePath directory artifact) h text
  simp only [files_append, FileAccess.change_apply, happend]

/-- Where there is no file, an append is refused, and nothing changes. -/
theorem files_append_refused
    (h : ∀ place bytes, ¬FileAt directory fs artifact place (some bytes)) (text : String) :
    ∃ cause, (files .ofState directory).append artifact text fs = (.error cause, fs) := by
  rw [files_append, FileAccess.change_apply]
  split
  · next written happended =>
    obtain ⟨place, bytes, htarget, -⟩ := appendText_ok happended
    exact absurd htarget (h place bytes)
  · next cause _ => exact ⟨cause, rfl⟩

/-! ## Contents -/

/-- The artifacts are in their files, and no other file has changed since `before`. -/
structure Stored (directory : String) (before : FileSystem) (texts : Texts) (fs : FileSystem) :
    Prop where
  file : ∀ artifact, ∃ place, FileAt directory fs artifact place (some (texts artifact).toUTF8)
  others : ∀ place, (∀ artifact bytes, ¬FileAt directory fs artifact place (some bytes)) →
    ∀ bytes, fs.entry? place = some (.file bytes) ↔ before.entry? place = some (.file bytes)

/-- What has been created is empty, what was there is kept, and no other file has changed. -/
theorem createAll_files {artifacts : List Artifact} (hnodup : artifacts.Nodup)
    (h : (files .ofState directory).createAll artifacts fs = (.ok (), written)) :
    (∀ artifact ∈ artifacts, ∃ place,
      FileAt directory written artifact place (some "".toUTF8)) ∧
    (∀ other ∉ artifacts, ∀ place bytes, FileAt directory fs other place (some bytes) →
      FileAt directory written other place (some bytes)) ∧
    ∀ place,
      (∀ artifact ∈ artifacts, ∀ bytes, ¬FileAt directory written artifact place (some bytes)) →
      ∀ bytes, written.entry? place = some (.file bytes) ↔ fs.entry? place = some (.file bytes) := by
  induction artifacts generalizing fs with
  | nil =>
    cases h
    exact ⟨nofun, fun _ _ _ _ => id, fun _ _ _ => Iff.rfl⟩
  | cons artifact rest ih =>
    obtain ⟨hnew, hrest⟩ := List.nodup_cons.mp hnodup
    rcases hcreated : (files .ofState directory).create artifact fs with ⟨cause | ⟨⟩, fs'⟩
    · simp only [createAll, bind, StateT.bind, hcreated] at h
      cases h
    · simp only [createAll, bind, StateT.bind, hcreated] at h
      obtain ⟨made, place, content, hmade, hfile, rfl⟩ := files_create_ok hcreated
      obtain ⟨hgrows, -⟩ := makeDirectories_spec hmade
      obtain ⟨hempty, hkept, hothers⟩ := ih hrest h
      have hthis := hkept artifact hnew place _ (hfile.write _)
      refine ⟨List.forall_mem_cons.mpr ⟨⟨place, hthis⟩, hempty⟩, ?_, ?_⟩
      · intro other hother at_ bytes hat
        obtain ⟨hne, hother⟩ := not_or.mp (List.mem_cons.not.mp hother)
        have hmoved : FileAt directory made other at_ (some bytes) := hgrows.target_ok hat
        exact hkept other hother at_ bytes (hfile.write_other hmoved hne _)
      · intro at_ hapart bytes
        obtain ⟨hat, hapart⟩ := List.forall_mem_cons.mp hapart
        have hne : at_ ≠ place := by
          rintro rfl
          exact hat _ hthis
        rw [hothers at_ hapart, hfile.entry?_write hne, hgrows.file_iff]

/-- Once all artifacts are created, their files are empty, whatever was in them. -/
theorem stored_of_createAll
    (h : (files .ofState directory).createAll Artifact.all fs = (.ok (), written)) :
    Stored directory fs (fun _ => "") written := by
  have hall : ∀ artifact : Artifact, artifact ∈ Artifact.all := by
    intro artifact
    cases artifact <;> decide
  obtain ⟨hempty, -, hothers⟩ := createAll_files (by decide) h
  exact ⟨fun artifact => hempty artifact (hall artifact),
    fun place hapart => hothers place fun artifact _ => hapart artifact⟩

/-- What is appended to an artifact comes to its file, and an append is never refused. -/
theorem files_tracks (directory : String) (before : FileSystem) :
    (files .ofState directory).Tracks (Stored directory before) (fun _ => False) := by
  constructor
  intro texts fs artifact more hstored
  obtain ⟨place, hfile⟩ := hstored.file artifact
  rw [hfile.append more]
  have hextended : (texts artifact).toUTF8 ++ more.toUTF8 =
      (texts.extend artifact more artifact).toUTF8 := by
    rw [Texts.extend, if_pos rfl]
    exact String.toByteArray_append.symm
  have hthis := hfile.write ((texts artifact).toUTF8 ++ more.toUTF8)
  constructor
  · intro other
    by_cases hne : other = artifact
    · rw [hne, ← hextended]
      exact ⟨place, hthis⟩
    · obtain ⟨at_, hother⟩ := hstored.file other
      rw [Texts.extend, if_neg hne]
      exact ⟨at_, hfile.write_other hother hne _⟩
  · intro at_ hapart bytes
    have hne : at_ ≠ place := by
      rintro rfl
      exact hapart artifact _ hthis
    rw [hfile.entry?_write hne]
    refine hstored.others at_ ?_ bytes
    intro other old hother
    by_cases hsame : other = artifact
    · subst hsame
      cases Except.ok.inj (hother.symm.trans hfile)
      exact hne rfl
    · exact hapart other old (hfile.write_other hother hsame _)

end Sink

end LinkedApi
