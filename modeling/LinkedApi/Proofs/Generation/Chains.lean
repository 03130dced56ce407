import LinkedApi.Generation.PipeModules
import LinkedApi.Proofs.Outcomes
import Mathlib.Data.Bool.Basic
import Mathlib.Data.List.Basic

/-!
# Chains of pipe modules

A chain is checked as a whole before any of its modules is defined. It is taken when it names no
module twice and agrees with what is known of each of its names, and then those of its modules that
are not known are new.
-/

namespace LinkedApi.Writers

def repeatedInChain (name : String) : DuplicateName :=
  ⟨.pipeModule, name, some "declared twice in one post-processing chain"⟩

variable {defined : List (String × String)} {seen : List String} {chain fresh : List PipeModule}

/-! ## Names and sources -/

/-- The rest of a chain is free of a name exactly when it is free of the names seen by then. -/
theorem nodup_names_cons_iff {pipe : PipeModule} {rest : List PipeModule}
    (hseen : pipe.name ∉ seen) :
    ((pipe :: rest).map (·.name)).Nodup ∧ (∀ p ∈ pipe :: rest, p.name ∉ seen) ↔
      (rest.map (·.name)).Nodup ∧ ∀ p ∈ rest, p.name ∉ seen ++ [pipe.name] := by
  simp only [List.map_cons, List.nodup_cons, List.mem_map, not_exists, not_and,
    List.forall_mem_cons, List.mem_append, List.mem_singleton, not_or]
  constructor
  · rintro ⟨⟨hne, hnodup⟩, -, hnot⟩
    exact ⟨hnodup, fun p hp => ⟨hnot p hp, hne p hp⟩⟩
  · rintro ⟨hnodup, hnot⟩
    exact ⟨⟨fun p hp => (hnot p hp).2, hnodup⟩, hseen, fun p hp => (hnot p hp).1⟩

/-- A pipe module has the source that is known of its name, if one is. -/
def Agrees (defined : List (String × String)) (pipe : PipeModule) : Prop :=
  ∀ found ∈ defined.find? (·.1 == pipe.name), found.2 = pipe.source

/-! ## Chains that are taken -/

/-- A chain is taken when its names are distinct and its sources agree with the known ones, and
gives the modules that are not known. -/
theorem undefinedOf_eq_ok_iff :
    PipeModules.undefinedOf defined seen chain = .ok fresh ↔
      ((chain.map (·.name)).Nodup ∧ ∀ pipe ∈ chain, pipe.name ∉ seen) ∧
        (∀ pipe ∈ chain, Agrees defined pipe) ∧
        chain.filter (fun pipe => (defined.find? (·.1 == pipe.name)).isNone) = fresh := by
  induction chain generalizing seen fresh with
  | nil => simp [PipeModules.undefinedOf]
  | cons pipe rest ih =>
    rw [PipeModules.undefinedOf]
    by_cases hseen : pipe.name ∈ seen
    · rw [if_pos (by simpa using hseen)]
      exact iff_of_false (fun h => by cases h) fun h => h.1.2 pipe List.mem_cons_self hseen
    rw [if_neg (by simpa using hseen), nodup_names_cons_iff hseen, List.forall_mem_cons,
      List.filter_cons]
    dsimp only
    cases hfound : defined.find? (·.1 == pipe.name) with
    | some entry =>
      have hagrees : Agrees defined pipe ↔ entry.2 = pipe.source := by simp [Agrees, hfound]
      by_cases hsource : entry.2 = pipe.source
      · simp [hsource, hagrees, ih]
      · simp [hsource, hagrees]
    | none =>
      have hagrees : Agrees defined pipe := by simp [Agrees, hfound]
      simp only [Outcome.bind_eq_ok, Outcome.pure_eq_ok, ih]
      simp [hagrees, and_assoc]

/-- Where the sources agree, a chain is only refused when it names a pipe module twice. -/
theorem undefinedOf_error {what : DuplicateName} (hagree : ∀ pipe ∈ chain, Agrees defined pipe)
    (h : PipeModules.undefinedOf defined seen chain = .error what) :
    ∃ name, what = repeatedInChain name := by
  induction chain generalizing seen with
  | nil => cases h
  | cons pipe rest ih =>
    rw [List.forall_mem_cons] at hagree
    rw [PipeModules.undefinedOf] at h
    split at h
    · cases h
      exact ⟨pipe.name, rfl⟩
    dsimp only at h
    split at h
    · next found source hfound =>
      rw [if_pos (hagree.1 _ hfound)] at h
      exact ih hagree.2 h
    · obtain hrest | ⟨more, -, h⟩ := Outcome.bind_eq_error.mp h
      · exact ih hagree.2 hrest
      · cases h

/-- The new modules of a chain have distinct names. -/
theorem nodup_undefinedOf (h : PipeModules.undefinedOf defined seen chain = .ok fresh) :
    (fresh.map (·.name)).Nodup := by
  obtain ⟨⟨hnodup, -⟩, -, rfl⟩ := undefinedOf_eq_ok_iff.mp h
  exact hnodup.sublist (List.filter_sublist.map _)

/-- The new modules of a chain are among its modules. -/
theorem undefinedOf_subset (h : PipeModules.undefinedOf defined seen chain = .ok fresh) :
    fresh ⊆ chain := by
  obtain ⟨-, -, rfl⟩ := undefinedOf_eq_ok_iff.mp h
  exact List.filter_subset_self chain

end LinkedApi.Writers
