import LinkedApi.Proofs.FileSystem
import LinkedApi.Proofs.Location
import Mathlib.Data.List.DropRight
import Mathlib.Tactic.IntervalCases

/-!
# Normal paths

Without links, every path goes up some directories from where it starts, and then down through
names. Its normal form goes down through the same names, but of the steps up with which it begins
each second one takes back the one before it, so that one step up is left of an odd number and
none of an even number. A path keeps its meaning in normal form exactly when this makes no
difference.
-/

namespace LinkedApi

open Text

namespace Path

/-! ## Following steps -/

/-- The place after a step from a directory. The root is its own parent. -/
def placeAfter (place : Place) (step : String) : Place :=
  if step = "." then place else if step = up then place.dropLast else place ++ [step]

/-- The place to which steps lead from a directory. -/
def follow (start : Place) (steps : List String) : Place := steps.foldl placeAfter start

def origin (p : Path) (start : Place) : Place := if p.absolute then [] else start

/-- The place to which a path leads from a working directory. -/
def placeFrom (p : Path) (start : Place) : Place := follow (p.origin start) p.steps

def climb : List String → Nat
  | [] => 0
  | step :: rest =>
    if step = "." then climb rest else if step = up then climb rest + 1 else climb rest - 1

variable {steps names : List String} {start : Place}

@[simp]
theorem follow_append (start : Place) (steps more : List String) :
    follow start (steps ++ more) = follow (follow start steps) more :=
  List.foldl_append

theorem rdrop_dropLast (start : Place) (n : Nat) : start.dropLast.rdrop n = start.rdrop (n + 1) := by
  rw [List.dropLast_eq_take, List.rdrop, List.rdrop, List.take_take, List.length_take]
  congr 1
  omega

/-- Steps up that are left over after a name do not take back more than it. -/
theorem rdrop_concat (start : Place) (step : String) (n : Nat) :
    (start ++ [step]).rdrop n = start.rdrop (n - 1) ++ [step].rdrop n := by
  cases n with
  | zero => simp
  | succ n =>
    have hnone : [step].rdrop (n + 1) = [] := by simp [List.rdrop]
    rw [List.rdrop_concat_succ, hnone, List.append_nil, Nat.add_sub_cancel]

/-- Steps lead up, and then down to where they lead from the root. -/
theorem follow_eq (start : Place) (steps : List String) :
    follow start steps = start.rdrop (climb steps) ++ follow [] steps := by
  induction steps generalizing start with
  | nil => simp [follow, climb]
  | cons step rest ih =>
    rw [follow, follow, List.foldl_cons, List.foldl_cons, ← follow, ← follow, placeAfter, placeAfter,
      climb]
    by_cases hhere : step = "."
    · rw [if_pos hhere, if_pos hhere, if_pos hhere]
      exact ih start
    by_cases hup : step = up
    · rw [if_neg hhere, if_pos hup, if_neg hhere, if_pos hup, if_neg hhere, if_pos hup, ih,
        rdrop_dropLast]
      rfl
    · rw [if_neg hhere, if_neg hup, if_neg hhere, if_neg hup, if_neg hhere, if_neg hup, ih,
        ih ([] ++ [step]), List.nil_append, rdrop_concat, List.append_assoc]

theorem mem_follow {name : String} (h : name ∈ follow start steps) :
    name ∈ start ∨ name ≠ "." ∧ name ≠ up := by
  induction steps generalizing start with
  | nil => exact .inl h
  | cons step rest ih =>
    have hrest : name ∈ follow (placeAfter start step) rest := h
    rcases ih hrest with hplace | hname
    · unfold placeAfter at hplace
      split at hplace
      · exact .inl hplace
      · next hhere =>
        split at hplace
        · exact .inl (List.dropLast_subset start hplace)
        · next hup =>
          rcases List.mem_append.mp hplace with hstart | hstep
          · exact .inl hstart
          · rw [List.mem_singleton.mp hstep]
            exact .inr ⟨hhere, hup⟩
    · exact .inr hname

/-- The way down goes through names only. -/
theorem isName_of_mem_follow {name : String} (h : name ∈ follow [] steps) :
    name ≠ "." ∧ name ≠ up :=
  (mem_follow h).resolve_left List.not_mem_nil

theorem follow_names (start : Place) (h : ∀ name ∈ names, name ≠ "." ∧ name ≠ up) :
    follow start names = start ++ names := by
  induction names generalizing start with
  | nil => exact (List.append_nil start).symm
  | cons name rest ih =>
    rw [List.forall_mem_cons] at h
    have hstep : placeAfter start name = start ++ [name] := by
      rw [placeAfter, if_neg h.1.1, if_neg h.1.2]
    calc follow start (name :: rest)
      _ = follow (placeAfter start name) rest := rfl
      _ = start ++ name :: rest := by rw [hstep, ih _ h.2, List.append_assoc, List.singleton_append]

@[simp]
theorem follow_replicate_up (start : Place) (n : Nat) :
    follow start (List.replicate n up) = start.rdrop n := by
  induction n generalizing start with
  | zero => exact (List.rdrop_zero start).symm
  | succ n ih =>
    have hstep : placeAfter start up = start.dropLast := rfl
    calc follow start (List.replicate (n + 1) up)
      _ = follow (placeAfter start up) (List.replicate n up) := rfl
      _ = start.rdrop (n + 1) := by rw [hstep, ih, rdrop_dropLast]

/-! ## The normal form -/

/-- Steps in normal form, kept in reverse: `n` steps up and then names. -/
def taken (n : Nat) (names : List String) : List String := names.reverse ++ List.replicate n up

/-- Where there is no name, a step up takes back the step up that is there, if there is one. -/
theorem normalStep_taken_nil {n : Nat} (hn : n ≤ 1) : normalStep (taken n []) up = taken (1 - n) [] := by
  interval_cases n <;> rfl

@[simp]
theorem normalStep_taken_concat (n : Nat) (names : List String) (name : String) :
    normalStep (taken n (names ++ [name])) up = taken n names := by
  simp [normalStep, taken]

theorem normalStep_taken {step : String} (h : step ≠ up) (n : Nat) (names : List String) :
    normalStep (taken n names) step = taken n (names ++ [step]) := by
  simp [normalStep, taken, h]

/-- Steps onto a path that is in normal form already. -/
theorem foldl_normalStep {n : Nat} (hn : n ≤ 1) (hsteps : "." ∉ steps) :
    steps.foldl normalStep (taken n names) =
      taken ((n + (climb steps - names.length)) % 2) (follow names steps) := by
  induction steps generalizing names n with
  | nil =>
    rw [climb, Nat.zero_sub, Nat.add_zero, Nat.mod_eq_of_lt (by omega)]
    rfl
  | cons step rest ih =>
    obtain ⟨hhere, hrest⟩ := List.ne_and_not_mem_of_not_mem_cons hsteps
    rw [List.foldl_cons, follow, List.foldl_cons, ← follow, placeAfter, climb, if_neg hhere.symm,
      if_neg hhere.symm]
    by_cases hup : step = up
    · subst hup
      rw [if_pos rfl, if_pos rfl]
      rcases List.eq_nil_or_concat names with rfl | ⟨above, name, rfl⟩
      · rw [normalStep_taken_nil hn, ih (by omega) hrest]
        congr 1
        simp only [List.length_nil]
        omega
      · rw [List.concat_eq_append, normalStep_taken_concat, ih hn hrest]
        congr 1
        · simp
        · simp
    · rw [if_neg hup, if_neg hup, normalStep_taken hup, ih hn hrest]
      congr 1
      simp only [List.length_append, List.length_singleton]
      omega

/-- A path in normal form goes up one directory if it went up an odd number, and then down through
the names through which it went before. -/
theorem steps_normalize {p : Path} (h : "." ∉ p.steps) :
    p.normalize.steps = List.replicate (climb p.steps % 2) up ++ follow [] p.steps := by
  have hnothing : taken 0 [] = [] := rfl
  have hfold : p.steps.foldl normalStep (taken 0 []) = _ := foldl_normalStep (Nat.zero_le 1) h
  rw [hnothing, Nat.zero_add, List.length_nil, Nat.sub_zero] at hfold
  rw [normalize, hfold, taken, List.reverse_append, List.reverse_replicate, List.reverse_reverse]

/-- The normal form goes up one directory for an odd number of steps up, and none for an even
number. -/
theorem follow_normalize {p : Path} (h : "." ∉ p.steps) (start : Place) :
    follow start p.normalize.steps = start.rdrop (climb p.steps % 2) ++ follow [] p.steps := by
  rw [steps_normalize h, follow_append, follow_replicate_up,
    follow_names _ fun _ => isName_of_mem_follow]

/-- Whether as many steps up count in the normal form of a path as in the path itself. -/
def KeepsClimb (p : Path) (start : Place) : Prop :=
  p.absolute ∨ climb p.steps ≤ 1 ∨ start.length ≤ climb p.steps % 2

theorem rdrop_eq_rdrop_iff (start : Place) (m n : Nat) :
    start.rdrop m = start.rdrop n ↔ start.length - m = start.length - n := by
  constructor
  · intro h
    simpa [List.rdrop] using congrArg List.length h
  · intro h
    rw [List.rdrop, List.rdrop, h]

theorem rdrop_origin_iff (p : Path) (start : Place) :
    (p.origin start).rdrop (climb p.steps % 2) = (p.origin start).rdrop (climb p.steps) ↔
      p.KeepsClimb start := by
  rw [rdrop_eq_rdrop_iff, KeepsClimb, origin]
  cases p.absolute with
  | true => simp
  | false =>
    simp only [Bool.false_eq_true, if_false, false_or]
    omega

/-- The normal form leads to the same place exactly where it goes up as far. -/
theorem follow_normalize_iff {p : Path} (h : "." ∉ p.steps) (start : Place) :
    follow (p.origin start) p.normalize.steps = follow (p.origin start) p.steps ↔
      p.KeepsClimb start := by
  rw [follow_normalize h, follow_eq (p.origin start) p.steps, List.append_cancel_right_eq,
    rdrop_origin_iff]

/-! ## Paths as texts -/

theorem steps_ofText (text : String) :
    (ofText text).steps = (FileSystem.steps text).filter (· ≠ ".") := by
  rw [FileSystem.steps, List.filter_filter, ofText, ofChars]
  apply List.filter_congr
  intro step _
  rw [Bool.decide_and, Bool.and_comm]

theorem here_not_mem_ofText (text : String) : "." ∉ (ofText text).steps := by
  rw [steps_ofText, List.mem_filter]
  rintro ⟨-, hkept⟩
  exact of_decide_eq_true hkept rfl

/-- Steps to the same directory do not count. -/
@[simp]
theorem follow_filter (start : Place) (steps : List String) :
    follow start (steps.filter (· ≠ ".")) = follow start steps := by
  rw [follow, List.foldl_filter]
  congr 1
  funext place step
  by_cases hhere : step = "." <;> simp [placeAfter, hhere]

/-- A path as seen from a directory leads to where it leads from there. -/
@[simp]
theorem placeFrom_join (p q : Path) (start : Place) :
    (p.join q).placeFrom start = q.placeFrom (p.placeFrom start) := by
  unfold join
  split
  · next habsolute => rw [placeFrom, placeFrom, origin, origin, if_pos habsolute, if_pos habsolute]
  · next habsolute =>
    have horigin : q.origin (p.placeFrom start) = p.placeFrom start := if_neg habsolute
    rw [placeFrom, follow_append, placeFrom, horigin]
    rfl

/-- Where the last step is a name, what is there is in the directory to which the others lead. -/
theorem placeFrom_parent {p : Path} {name : String} (hlast : p.steps.getLast? = some name)
    (hname : name ≠ "." ∧ name ≠ up) (start : Place) :
    p.parent.placeFrom start = (p.placeFrom start).dropLast := by
  obtain ⟨above, habove⟩ := List.getLast?_eq_some_iff.mp hlast
  have hparent : p.parent = { p with steps := above } := by
    rw [parent, habove, List.dropLast_concat, if_neg (by simp)]
  have hplace : p.placeFrom start = follow (p.origin start) above ++ [name] := by
    rw [placeFrom, habove, follow_append, follow_names _ (List.forall_mem_singleton.mpr hname)]
  rw [hplace, List.dropLast_concat, hparent]
  rfl

end Path

/-! ## File systems -/

namespace FileSystem

open LinkedApi.Path

variable {fs : FileSystem} {start : Place} {steps : List String} {target : Target}

def Target.place : Target → Place
  | .entry place _ => place
  | .vacant place => place

namespace Leads

/-- Steps that can be taken lead to the place that they name. -/
theorem place_eq (h : fs.Leads start steps target) : target.place = follow start steps := by
  induction h with
  | here place => rfl
  | stay _ ih => exact ih
  | up _ ih => exact ih
  | into hstep _ _ ih =>
    rw [ih, follow, follow, List.foldl_cons, placeAfter, if_neg hstep.ne_here, if_neg hstep.ne_up]
  | file hstep _ | vacant hstep _ =>
    exact (follow_names _ (List.forall_mem_singleton.mpr ⟨hstep.ne_here, hstep.ne_up⟩)).symm

/-- Where steps can be taken, their way down can be taken from the directory to which they go up. -/
theorem descend (h : fs.Leads start steps target) :
    fs.Leads (start.rdrop (climb steps)) (follow [] steps) target := by
  induction h with
  | here place =>
    rw [climb, List.rdrop_zero]
    exact .here place
  | stay _ ih => exact ih
  | @up place rest target _ ih =>
    rw [rdrop_dropLast] at ih
    exact ih
  | @into place step rest target hstep hentry h ih =>
    have hclimb : climb (step :: rest) = climb rest - 1 := by
      rw [climb, if_neg hstep.ne_here, if_neg hstep.ne_up]
    have hfollow : follow [] (step :: rest) = [step].rdrop (climb rest) ++ follow [] rest := by
      rw [follow, List.foldl_cons, placeAfter, if_neg hstep.ne_here, if_neg hstep.ne_up,
        List.nil_append, ← follow, follow_eq]
    rw [hclimb, hfollow]
    cases hrest : climb rest with
    | zero =>
      rw [hrest, List.rdrop_zero] at ih
      rw [Nat.zero_sub, List.rdrop_zero, List.rdrop_zero]
      exact .into hstep hentry ih
    | succ n =>
      rw [hrest, rdrop_concat] at ih
      have hnone : [step].rdrop (n + 1) = [] := by simp [List.rdrop]
      rw [hnone, List.append_nil] at ih
      rw [hnone]
      exact ih
  | @file place step bytes hstep hentry =>
    have hclimb : climb [step] = 0 := by
      rw [climb, if_neg hstep.ne_here, if_neg hstep.ne_up]
      rfl
    rw [hclimb, List.rdrop_zero,
      follow_names _ (List.forall_mem_singleton.mpr ⟨hstep.ne_here, hstep.ne_up⟩)]
    exact .file hstep hentry
  | @vacant place step hstep hentry =>
    have hclimb : climb [step] = 0 := by
      rw [climb, if_neg hstep.ne_here, if_neg hstep.ne_up]
      rfl
    rw [hclimb, List.rdrop_zero,
      follow_names _ (List.forall_mem_singleton.mpr ⟨hstep.ne_here, hstep.ne_up⟩)]
    exact .vacant hstep hentry

theorem replicate_up {n : Nat} (h : fs.Leads (start.rdrop n) steps target) :
    fs.Leads start (List.replicate n Path.up ++ steps) target := by
  induction n generalizing start with
  | zero =>
    rw [List.rdrop_zero] at h
    exact h
  | succ n ih =>
    rw [← rdrop_dropLast] at h
    exact .up (ih h)

theorem filter (h : fs.Leads start steps target) :
    fs.Leads start (steps.filter (· ≠ ".")) target := by
  have hkept {step : String} (hstep : IsName step) (rest : List String) :
      (step :: rest).filter (· ≠ ".") = step :: rest.filter (· ≠ ".") :=
    List.filter_cons_of_pos (decide_eq_true hstep.ne_here)
  induction h with
  | here place => exact .here place
  | stay _ ih => exact ih
  | up _ ih => exact .up ih
  | into hstep hentry _ ih =>
    rw [hkept hstep]
    exact .into hstep hentry ih
  | file hstep hentry =>
    rw [hkept hstep]
    exact .file hstep hentry
  | vacant hstep hentry =>
    rw [hkept hstep]
    exact .vacant hstep hentry

/-- What a path leads to is found by its normal form, if that goes up as far. -/
theorem normalize {p : Path} (hhere : "." ∉ p.steps) (hkeeps : p.KeepsClimb start)
    (h : fs.Leads (p.origin start) p.steps target) :
    fs.Leads (p.origin start) p.normalize.steps target := by
  rw [steps_normalize hhere]
  apply replicate_up
  rw [(rdrop_origin_iff p start).mpr hkeeps]
  exact h.descend

end Leads

def placeOf (text : String) (start : Place) : Place :=
  follow ((Path.ofText text).origin start) (FileSystem.steps text)

theorem placeOf_eq (text : String) (start : Place) :
    placeOf text start = (Path.ofText text).placeFrom start := by
  rw [placeOf, placeFrom, steps_ofText, follow_filter]

end FileSystem

/-! ## Locations -/

namespace Location

open FileSystem LinkedApi.Path

/-- A location that documents can give has no steps to the same directory. -/
def HereFree : Location → Prop
  | .file path => "." ∉ path.steps
  | .url _ => True

theorem hereFree_ofText (text : String) : (ofText text).HereFree := by
  unfold ofText
  split
  · trivial
  · exact allSteps_ne_iff.mp
      ((allSteps_ne_iff.mpr (here_not_mem_ofText _)).normalize (by decide))

theorem HereFree.join {base : Location} (h : base.HereFree) (target : String) :
    (base.join target).HereFree := by
  unfold Location.join
  split
  · trivial
  · split
    · exact hereFree_ofText target
    · cases base with
      | file path =>
        have hjoined := (allSteps_ne_iff.mpr h).parent.join
          (allSteps_ne_iff.mpr (here_not_mem_ofText target))
        exact allSteps_ne_iff.mp (hjoined.normalize (by decide))
      | url text => trivial

def reached (text : String) (targets : List String) : Location :=
  targets.foldl Location.join (ofText text)

/-- What holds of the first location and is kept when a target is joined holds wherever targets
lead. -/
theorem reached_induction {P : Location → Prop} (hfirst : ∀ text, P (ofText text))
    (hjoin : ∀ base, P base → ∀ target, P (base.join target)) (text : String)
    (targets : List String) : P (reached text targets) := by
  unfold reached
  induction targets using List.reverseRecOn with
  | nil => exact hfirst text
  | append_singleton targets target ih =>
    rw [List.foldl_append]
    exact hjoin _ ih target

theorem hereFree_reached (text : String) (targets : List String) :
    (reached text targets).HereFree :=
  reached_induction hereFree_ofText (fun _ hbase => hbase.join) text targets

/-- A target without scheme is taken from the directory of a file. -/
theorem join_file {base : Path} {target : String} (hremote : isRemote target = false)
    (hscheme : target.startsWith "file://" = false) :
    Location.join (.file base) target =
      .file (base.parent.join (Path.ofText target)).normalize := by
  rw [Location.join, hremote, hscheme]
  rfl

/-- A path leads to the same place in normal form exactly when as many steps up count in it, and
then the normal form finds in every file system what the path finds there. As a target it is taken
from the directory of the document that refers to it exactly when this holds of the two together. -/
theorem normal_paths_lead_alike (text : String) (start : Place) :
    let p := Path.ofText text
    (p.normalize.placeFrom start = placeOf text start ↔ p.KeepsClimb start) ∧
    (p.KeepsClimb start → ∀ (fs : FileSystem) (target : Target),
      fs.walk (p.origin start) (FileSystem.steps text) = .ok target →
        target.place = placeOf text start ∧
        fs.walk (p.origin start) p.normalize.steps = .ok target) ∧
    ∀ (first : String) (targets : List String) (base : Path),
      reached first targets = .file base → isRemote text = false →
      text.startsWith "file://" = false →
      (∀ name, base.steps.getLast? = some name → name ≠ Path.up →
        base.parent.placeFrom start = (base.placeFrom start).dropLast) ∧
      ∃ path, Location.join (.file base) text = .file path ∧
        (path.placeFrom start = placeOf text (base.parent.placeFrom start) ↔
          (base.parent.join p).KeepsClimb start) := by
  intro p
  have hhere : "." ∉ p.steps := here_not_mem_ofText text
  refine ⟨?_, ?_, ?_⟩
  · rw [placeOf_eq]
    exact follow_normalize_iff hhere start
  · intro hkeeps fs target hwalk
    have hleads := leads_of_walk hwalk
    refine ⟨hleads.place_eq, Leads.walk (Leads.normalize hhere hkeeps ?_)⟩
    rw [steps_ofText]
    exact hleads.filter
  · intro first targets base hbase hremote hscheme
    have hfree := hereFree_reached first targets
    rw [hbase] at hfree
    have hjoined : "." ∉ (base.parent.join p).steps :=
      allSteps_ne_iff.mp ((allSteps_ne_iff.mpr hfree).parent.join (allSteps_ne_iff.mpr hhere))
    refine ⟨?_, _, join_file hremote hscheme, ?_⟩
    · intro name hlast hup
      refine placeFrom_parent hlast ⟨?_, hup⟩ start
      rintro rfl
      exact hfree (List.mem_of_getLast? hlast)
    · rw [placeOf_eq, ← placeFrom_join]
      exact follow_normalize_iff hjoined start

/-- Two steps up take back each other, so that a document of the same directory is found. -/
theorem two_steps_up_lost :
    (Path.ofText "../..").normalize.placeFrom ["a", "b"] ≠ placeOf "../.." ["a", "b"] ∧
      Location.join (ofText "main.yaml") "../../x.yaml" = ofText "x.yaml" ∧
      placeOf "../../x.yaml" ["a", "b"] ≠ placeOf "x.yaml" ["a", "b"] := by
  refine ⟨by decide, by decide +kernel, by decide⟩

def neighbour : FileSystem where
  entries := [(["x"], .directory), (["x", "b.yaml"], .file ByteArray.empty), (["x", "y"], .directory),
    (["x", "y", "a"], .directory)]
  workingDirectory := ["x", "y"]

theorem normal_paths_lead_alike_one_up :
    (Path.ofText "a/./../../b.yaml").KeepsClimb ["x", "y"] ∧
      neighbour.walk ["x", "y"] (Path.ofText "a/./../../b.yaml").normalize.steps =
        .ok (.entry ["x", "b.yaml"] (.file ByteArray.empty)) ∧
      reached "docs/main.yaml" ["../common/a.yaml"] = .file ⟨false, ["common", "a.yaml"]⟩ ∧
      ∃ path, Location.join (.file ⟨false, ["common", "a.yaml"]⟩) "../../b.yaml" = .file path ∧
        path.placeFrom ["x", "y"] = placeOf "../../b.yaml" ["x", "y", "common"] := by
  have hkeeps : (Path.ofText "a/./../../b.yaml").KeepsClimb ["x", "y"] := .inr (.inl (by decide))
  have hwalk : neighbour.walk ((Path.ofText "a/./../../b.yaml").origin ["x", "y"])
      (FileSystem.steps "a/./../../b.yaml") =
        .ok (.entry ["x", "b.yaml"] (.file ByteArray.empty)) := by
    rfl
  have hreached : reached "docs/main.yaml" ["../common/a.yaml"] =
      .file ⟨false, ["common", "a.yaml"]⟩ := by
    decide +kernel
  obtain ⟨-, hwalks, -⟩ := normal_paths_lead_alike "a/./../../b.yaml" ["x", "y"]
  obtain ⟨-, -, hjoins⟩ := normal_paths_lead_alike "../../b.yaml" ["x", "y"]
  obtain ⟨-, path, hpath, hiff⟩ := hjoins "docs/main.yaml" ["../common/a.yaml"] _ hreached
    (by decide +kernel) (by decide +kernel)
  exact ⟨hkeeps, (hwalks hkeeps _ _ hwalk).2, hreached, path, hpath,
    hiff.mpr (.inr (.inl (by decide)))⟩

end Location

end LinkedApi
