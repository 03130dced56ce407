import LinkedApi.FileSystem
import LinkedApi.Proofs.Outcomes
import Mathlib.Logic.Relation

/-!
# Where paths lead

What an operation does to a file system is to put entries at places where no directory is. How this
changes where paths lead is told once, for any such entry. Making directories only adds directories,
so that it leaves every file and every path to one as they are.
-/

namespace LinkedApi.FileSystem

open Outcome

variable {fs fs' made written : FileSystem} {place at_ start : Place} {entry : Entry} {path : String}
  {steps : List String} {target : Target}

/-! ## Entries -/

theorem find?_setEntries (place at_ : Place) (entry : Entry) (entries : List (Place × Entry)) :
    ((setEntries place entry entries).find? (·.1 == at_)).map (·.2) =
      if at_ = place then some entry else (entries.find? (·.1 == at_)).map (·.2) := by
  induction entries with
  | nil =>
    rw [setEntries, List.find?_singleton]
    by_cases h : at_ = place
    · simp [h]
    · simp [h, Ne.symm h]
  | cons old rest ih =>
    obtain ⟨where_, what⟩ := old
    rw [setEntries]
    by_cases hplace : where_ = place
    · subst hplace
      rw [if_pos rfl, List.find?_cons, List.find?_cons]
      by_cases h : at_ = where_
      · simp [h]
      · simp [h, beq_eq_false_iff_ne.mpr (Ne.symm h)]
    · rw [if_neg hplace, List.find?_cons, List.find?_cons]
      by_cases h : where_ = at_
      · rw [h] at hplace
        simp [h, hplace]
      · simp only [beq_eq_false_iff_ne.mpr h]
        exact ih

/-- An entry that is put at a place is found there, and everything else where it was. -/
theorem entry?_set (hroot : place ≠ []) (at_ : Place) :
    entry? (fs.set place entry) at_ = if at_ = place then some entry else fs.entry? at_ := by
  unfold entry?
  by_cases hempty : at_ = []
  · rw [hempty, if_neg hroot.symm]
    rfl
  · rw [List.isEmpty_eq_false_iff.mpr hempty]
    exact find?_setEntries place at_ entry fs.entries

/-- The root is a directory. -/
theorem ne_nil_of_not_directory (h : fs.entry? place ≠ some .directory) : place ≠ [] := by
  rintro rfl
  exact h rfl

/-! ## Steps -/

/-- A step into what has this name. -/
structure IsName (step : String) : Prop where
  ne_here : step ≠ "."
  ne_up : step ≠ Path.up
  size : step.utf8ByteSize ≤ nameLimit

/-- Where steps lead from a directory, if they can be taken. -/
inductive Leads (fs : FileSystem) : Place → List String → Target → Prop where
  | here (place : Place) : Leads fs place [] (.entry place .directory)
  | stay {place : Place} {rest : List String} {target : Target} (h : Leads fs place rest target) :
    Leads fs place ("." :: rest) target
  | up {place : Place} {rest : List String} {target : Target}
    (h : Leads fs place.dropLast rest target) : Leads fs place (Path.up :: rest) target
  | into {place : Place} {step : String} {rest : List String} {target : Target}
    (hstep : IsName step) (hentry : fs.entry? (place ++ [step]) = some .directory)
    (h : Leads fs (place ++ [step]) rest target) : Leads fs place (step :: rest) target
  | file {place : Place} {step : String} {bytes : ByteArray} (hstep : IsName step)
    (hentry : fs.entry? (place ++ [step]) = some (.file bytes)) :
    Leads fs place [step] (.entry (place ++ [step]) (.file bytes))
  | vacant {place : Place} {step : String} (hstep : IsName step)
    (hentry : fs.entry? (place ++ [step]) = none) : Leads fs place [step] (.vacant (place ++ [step]))

theorem walk_cons_of_isName {step : String} (hstep : IsName step) (rest : List String) :
    fs.walk start (step :: rest) =
      match fs.entry? (start ++ [step]) with
      | some .directory => fs.walk (start ++ [step]) rest
      | some (.file bytes) =>
        if rest.isEmpty then .ok (.entry (start ++ [step]) (.file bytes)) else .error .notDirectory
      | none => if rest.isEmpty then .ok (.vacant (start ++ [step])) else .error .notFound := by
  rw [walk, if_neg hstep.ne_here, if_neg hstep.ne_up]
  exact if_neg (Nat.not_lt.mpr hstep.size)

/-- A walk that succeeds takes steps that can be taken. -/
theorem leads_of_walk (h : fs.walk start steps = .ok target) : fs.Leads start steps target := by
  induction steps generalizing start with
  | nil =>
    cases Except.ok.inj h
    exact .here start
  | cons step rest ih =>
    by_cases hhere : step = "."
    · rw [walk, if_pos hhere] at h
      exact hhere ▸ .stay (ih h)
    by_cases hup : step = Path.up
    · rw [walk, if_neg hhere, if_pos hup] at h
      exact hup ▸ .up (ih h)
    by_cases hsize : nameLimit < step.utf8ByteSize
    · rw [walk, if_neg hhere, if_neg hup, if_pos hsize] at h
      cases h
    have hstep : IsName step := ⟨hhere, hup, Nat.le_of_not_lt hsize⟩
    rw [walk_cons_of_isName hstep] at h
    split at h
    · next hentry => exact .into hstep hentry (ih h)
    · next bytes hentry =>
      split at h
      · next hlast =>
        cases Except.ok.inj h
        exact List.isEmpty_iff.mp hlast ▸ .file hstep hentry
      · cases h
    · next hentry =>
      split at h
      · next hlast =>
        cases Except.ok.inj h
        exact List.isEmpty_iff.mp hlast ▸ .vacant hstep hentry
      · cases h

/-- Steps that can be taken are walked. -/
theorem Leads.walk (h : fs.Leads start steps target) : fs.walk start steps = .ok target := by
  induction h with
  | here place => rfl
  | stay _ ih =>
    rw [FileSystem.walk, if_pos rfl]
    exact ih
  | up _ ih =>
    rw [FileSystem.walk, if_neg (by decide), if_pos rfl]
    exact ih
  | into hstep hentry _ ih =>
    rw [walk_cons_of_isName hstep, hentry]
    exact ih
  | file hstep hentry =>
    rw [walk_cons_of_isName hstep, hentry]
    rfl
  | vacant hstep hentry =>
    rw [walk_cons_of_isName hstep, hentry]
    rfl

/-- Where a file is, or could be created. -/
def Target.holding (place : Place) : Option ByteArray → Target
  | some bytes => .entry place (.file bytes)
  | none => .vacant place

namespace Leads

variable {content : Option ByteArray}

/-- A path to a file, or to where one could be created, leads to what stands there. -/
theorem entry_eq (h : fs.Leads start steps (.holding place content)) :
    fs.entry? place = content.map .file := by
  generalize htarget : Target.holding place content = target at h
  induction h with
  | here at_ => cases content <;> cases htarget
  | stay _ ih => exact ih htarget
  | up _ ih => exact ih htarget
  | into _ _ _ ih => exact ih htarget
  | file _ hentry =>
    cases content <;> cases htarget
    exact hentry
  | vacant _ hentry =>
    cases content <;> cases htarget
    exact hentry

/-- The last step to a file is its name. -/
theorem getLast? (h : fs.Leads start steps (.holding place content)) :
    ∃ name, steps.getLast? = some name ∧ place.getLast? = some name := by
  generalize htarget : Target.holding place content = target at h
  induction h with
  | here at_ => cases content <;> cases htarget
  | stay _ ih | up _ ih | into _ _ _ ih =>
    obtain ⟨name, hsteps, hplace⟩ := ih htarget
    exact ⟨name, by rw [List.getLast?_cons, hsteps]; rfl, hplace⟩
  | file | vacant =>
    cases content <;> cases htarget
    exact ⟨_, rfl, List.getLast?_concat⟩

end Leads

/-! ## Putting entries -/

def Target.put (place : Place) (entry : Entry) : Target → Target
  | .entry at_ .directory => .entry at_ .directory
  | .entry at_ (.file bytes) => .entry at_ (if at_ = place then entry else .file bytes)
  | .vacant at_ => if at_ = place then .entry at_ entry else .vacant at_

theorem leads_entry {step : String} (hstep : IsName step)
    (hentry : fs.entry? (start ++ [step]) = some entry) :
    fs.Leads start [step] (.entry (start ++ [step]) entry) := by
  cases entry with
  | directory => exact .into hstep hentry (.here _)
  | file bytes => exact .file hstep hentry

/-- An entry that is put where no directory is lets every path go on. -/
theorem Leads.set (h : fs.Leads start steps target) (hplace : fs.entry? place ≠ some .directory)
    (entry : Entry) : (fs.set place entry).Leads start steps (target.put place entry) := by
  have hset : ∀ at_, entry? (fs.set place entry) at_ = _ := entry?_set (ne_nil_of_not_directory hplace)
  induction h with
  | here at_ => exact .here at_
  | stay _ ih => exact .stay ih
  | up _ ih => exact .up ih
  | @into at_ step rest target hstep hentry _ ih =>
    have hapart : at_ ++ [step] ≠ place := by
      rintro rfl
      exact hplace hentry
    exact .into hstep (by rw [hset, if_neg hapart, hentry]) ih
  | @file at_ step bytes hstep hentry =>
    rw [Target.put]
    by_cases hat : at_ ++ [step] = place
    · rw [if_pos hat]
      exact leads_entry hstep (by rw [hset, if_pos hat])
    · rw [if_neg hat]
      exact .file hstep (by rw [hset, if_neg hat, hentry])
  | @vacant at_ step hstep hentry =>
    rw [Target.put]
    by_cases hat : at_ ++ [step] = place
    · rw [if_pos hat]
      exact leads_entry hstep (by rw [hset, if_pos hat])
    · rw [if_neg hat]
      exact .vacant hstep (by rw [hset, if_neg hat, hentry])

/-- A path that leads somewhere is followed step by step, in every file system with the same working
directory. -/
theorem walk_of_target (h : fs.target path = .ok target) :
    ∃ start, fs.walk start (FileSystem.steps path) = .ok target ∧
      ∀ fs' : FileSystem, fs'.workingDirectory = fs.workingDirectory →
        fs'.target path = fs'.walk start (FileSystem.steps path) := by
  unfold FileSystem.target at h ⊢
  split at h
  · cases h
  next hnul =>
  split at h
  · cases h
  next hempty =>
  split at h
  · cases h
  next hsize =>
  refine ⟨_, h, fun fs' hsame => ?_⟩
  rw [if_neg hnul, if_neg hempty, if_neg hsize, hsame]

theorem leads_of_target (h : fs.target path = .ok target) :
    ∃ start, fs.Leads start (FileSystem.steps path) target := by
  obtain ⟨start, hwalk, -⟩ := walk_of_target h
  exact ⟨start, leads_of_walk hwalk⟩

/-- A path leads to the same place after an entry has been put there. -/
theorem target_set (h : fs.target path = .ok target) (hplace : fs.entry? place ≠ some .directory)
    (entry : Entry) : (fs.set place entry).target path = .ok (target.put place entry) := by
  obtain ⟨start, hwalk, hsame⟩ := walk_of_target h
  rw [hsame (fs.set place entry) rfl]
  exact ((leads_of_walk hwalk).set hplace entry).walk

theorem entry?_of_target {content : Option ByteArray}
    (h : fs.target path = .ok (.holding place content)) : fs.entry? place = content.map .file := by
  obtain ⟨start, hleads⟩ := leads_of_target h
  exact hleads.entry_eq

theorem ne_directory_of_target {content : Option ByteArray}
    (h : fs.target path = .ok (.holding place content)) : fs.entry? place ≠ some .directory := by
  rw [entry?_of_target h]
  cases content <;> nofun

/-! ## Files -/

section Files

variable {content : Option ByteArray}

/-- A file is written at the place to which its path leads, and nothing else changes. -/
theorem writeText_ok {text : String} (h : fs.writeText path text = .ok written) :
    ∃ place content, fs.target path = .ok (.holding place content) ∧
      written = fs.set place (.file text.toUTF8) := by
  obtain ⟨target, htarget, h⟩ := bind_eq_ok.mp h
  split at h
  · cases h
  · next place bytes =>
    split at h
    · cases h
    · exact ⟨place, some bytes, htarget, (pure_eq_ok.mp h).symm⟩
  · next place =>
    split at h
    · cases h
    · exact ⟨place, none, htarget, (pure_eq_ok.mp h).symm⟩

/-- A file that is appended to keeps its beginning, and nothing else changes. -/
theorem appendText_ok {text : String} (h : fs.appendText path text = .ok written) :
    ∃ place bytes, fs.target path = .ok (.holding place (some bytes)) ∧
      written = fs.set place (.file (bytes ++ text.toUTF8)) := by
  obtain ⟨target, htarget, h⟩ := bind_eq_ok.mp h
  split at h
  · cases h
  · next place bytes =>
    split at h
    · cases h
    · exact ⟨place, bytes, htarget, (pure_eq_ok.mp h).symm⟩
  · cases h

theorem writeText_of_target (hpath : namesDirectory path = false)
    (h : fs.target path = .ok (.holding place content)) (text : String) :
    fs.writeText path text = .ok (fs.set place (.file text.toUTF8)) := by
  unfold writeText
  rw [h, hpath]
  cases content <;> rfl

theorem appendText_of_target {bytes : ByteArray} (hpath : namesDirectory path = false)
    (h : fs.target path = .ok (.holding place (some bytes))) (text : String) :
    fs.appendText path text = .ok (fs.set place (.file (bytes ++ text.toUTF8))) := by
  unfold appendText
  rw [h, hpath]
  rfl

theorem readBytes_of_target {bytes : ByteArray} (hpath : namesDirectory path = false)
    (h : fs.target path = .ok (.holding place (some bytes))) : fs.readBytes path = .ok bytes := by
  unfold readBytes
  rw [h, hpath]
  rfl

theorem exists?_of_target (hpath : namesDirectory path = false)
    (h : fs.target path = .ok (.holding place content)) :
    fs.exists? path = content.isSome := by
  unfold exists?
  rw [h, hpath]
  cases content <;> rfl

/-- A file that is written leaves the path to every file, save for what the written one holds. -/
theorem target_write {other : String} {at_ : Place} {was : Option ByteArray}
    (hplace : fs.target path = .ok (.holding place content))
    (h : fs.target other = .ok (.holding at_ was)) (bytes : ByteArray) :
    (fs.set place (.file bytes)).target other =
      .ok (.holding at_ (if at_ = place then some bytes else was)) := by
  rw [target_set h (ne_directory_of_target hplace)]
  cases was with
  | none =>
    rw [Target.holding, Target.put]
    split <;> rfl
  | some old =>
    rw [Target.holding, Target.put]
    split <;> rfl

end Files

/-! ## Directories -/

theorem isDirectory_iff :
    fs.isDirectory path ↔ ∃ place, fs.target path = .ok (.entry place .directory) := by
  unfold isDirectory
  split
  · next place htarget => exact iff_of_true rfl ⟨place, htarget⟩
  · next hother => exact iff_of_false nofun fun ⟨place, htarget⟩ => hother place htarget

/-- A directory that is to be there: none is needed at the empty path. -/
def HasDirectory (fs : FileSystem) (path : String) : Prop := path = "" ∨ fs.isDirectory path

theorem HasDirectory.set (h : fs.HasDirectory path) (hplace : fs.entry? place ≠ some .directory)
    (entry : Entry) : (fs.set place entry).HasDirectory path := by
  refine h.imp_right fun hdirectory => ?_
  obtain ⟨at_, htarget⟩ := isDirectory_iff.mp hdirectory
  exact isDirectory_iff.mpr ⟨at_, target_set htarget hplace entry⟩

/-- A directory that is there is not made again. -/
theorem makeDirectories_of_hasDirectory (h : fs.HasDirectory path) :
    fs.makeDirectories path = .ok fs := by
  unfold makeDirectories
  rcases h with rfl | hdirectory
  · rfl
  · obtain ⟨place, htarget⟩ := isDirectory_iff.mp hdirectory
    have hexists : fs.makeDirectory path = .error .exists := by
      rw [makeDirectory, htarget]
      rfl
    rw [hexists]
    simp only [hdirectory, if_true]
    split <;> rfl

/-- One directory more, where nothing was. -/
def AddsDirectory (fs fs' : FileSystem) : Prop :=
  ∃ place, fs.entry? place = none ∧ fs' = fs.set place .directory

abbrev Grows : FileSystem → FileSystem → Prop := Relation.ReflTransGen AddsDirectory

namespace Grows

theorem file_iff (h : Grows fs fs') (place : Place) (bytes : ByteArray) :
    fs'.entry? place = some (.file bytes) ↔ fs.entry? place = some (.file bytes) := by
  induction h with
  | refl => rfl
  | tail _ hadds ih =>
    obtain ⟨at_, hvacant, rfl⟩ := hadds
    rw [entry?_set (ne_nil_of_not_directory (by rw [hvacant]; nofun)), ← ih]
    by_cases hplace : place = at_
    · rw [if_pos hplace, hplace, hvacant]
      exact iff_of_false nofun nofun
    · rw [if_neg hplace]

/-- A path to something still leads to it. -/
theorem target_ok (h : Grows fs fs') (htarget : fs.target path = .ok (.entry place entry)) :
    fs'.target path = .ok (.entry place entry) := by
  induction h with
  | refl => exact htarget
  | tail _ hadds ih =>
    obtain ⟨at_, hvacant, rfl⟩ := hadds
    rw [target_set ih (by rw [hvacant]; nofun)]
    cases entry with
    | directory => rfl
    | file bytes =>
      have hholding : Target.entry place (.file bytes) = .holding place (some bytes) := rfl
      have hapart : place ≠ at_ := by
        rintro rfl
        rw [hholding] at ih
        cases hvacant.symm.trans (entry?_of_target ih)
      rw [Target.put, if_neg hapart]

end Grows

/-- A directory that has been made is there, and nothing else has changed. -/
theorem makeDirectory_spec (h : fs.makeDirectory path = .ok made) :
    Grows fs made ∧ made.isDirectory path := by
  obtain ⟨target, htarget, h⟩ := bind_eq_ok.mp h
  cases target with
  | entry place entry => cases h
  | vacant place =>
    cases pure_eq_ok.mp h
    have hholding : Target.vacant place = .holding place none := rfl
    have hvacant := entry?_of_target (hholding ▸ htarget)
    refine ⟨.single ⟨place, hvacant, rfl⟩, isDirectory_iff.mpr ⟨place, ?_⟩⟩
    rw [target_set htarget (by rw [hvacant]; nofun), Target.put, if_pos rfl]

theorem settleDirectory_spec (h : fs.settleDirectory path = .ok made) :
    Grows fs made ∧ made.isDirectory path := by
  unfold settleDirectory at h
  split at h
  · next hmade =>
    cases Except.ok.inj h
    exact makeDirectory_spec hmade
  · split at h
    · next hdirectory =>
      cases Except.ok.inj h
      exact ⟨.refl, hdirectory⟩
    · cases h

theorem makeUpward_grows {absolute : Bool} {names : List String}
    (h : makeUpward absolute fs names = .ok made) : Grows fs made := by
  induction names generalizing made with
  | nil =>
    cases Except.ok.inj h
    exact .refl
  | cons name above ih =>
    unfold makeUpward at h
    dsimp only at h
    split at h
    · obtain ⟨ground, hground, h⟩ := bind_eq_ok.mp h
      exact (ih hground).trans (settleDirectory_spec h).1
    · next hmade =>
      cases pure_eq_ok.mp h
      exact (makeDirectory_spec hmade).1
    · split at h
      · cases pure_eq_ok.mp h
        exact .refl
      · cases h

/-- Once a directory is made with those on the way to it, nothing else has changed. -/
theorem makeDirectories_spec (h : fs.makeDirectories path = .ok made) :
    Grows fs made ∧ made.HasDirectory path := by
  unfold makeDirectories at h
  split at h
  · next hempty =>
    cases pure_eq_ok.mp h
    exact ⟨.refl, .inl (String.isEmpty_iff.mp hempty)⟩
  · split at h
    · next hmade =>
      cases pure_eq_ok.mp h
      have hspec := makeDirectory_spec hmade
      exact ⟨hspec.1, .inr hspec.2⟩
    · obtain ⟨ground, hground, h⟩ := bind_eq_ok.mp h
      have hspec := settleDirectory_spec h
      exact ⟨(makeUpward_grows hground).trans hspec.1, .inr hspec.2⟩
    · split at h
      · next hdirectory =>
        cases pure_eq_ok.mp h
        exact ⟨.refl, .inr hdirectory⟩
      · cases h

end LinkedApi.FileSystem
