import LinkedApi.Text.Split
import Mathlib.Data.List.Basic

/-!
# Splitting and joining

A text is split into pieces that are free of the separator, and pieces that are free of it are
found again in the text they are joined to.
-/

namespace LinkedApi.Text

theorem splitAt_ne_nil (separator : Char) (cs : List Char) : splitAt separator cs ≠ [] := by
  induction cs with
  | nil => simp [splitAt]
  | cons c rest ih =>
    rw [splitAt]
    split
    · simp
    · split <;> simp

@[simp]
theorem splitAt_append (separator : Char) (before after : List Char) :
    splitAt separator (before ++ separator :: after) =
      splitAt separator before ++ splitAt separator after := by
  induction before with
  | nil => simp [splitAt]
  | cons c rest ih =>
    rw [List.cons_append, splitAt, splitAt, ih]
    split
    · rfl
    · cases hpieces : splitAt separator rest with
      | nil => exact absurd hpieces (splitAt_ne_nil separator rest)
      | cons piece pieces => rfl

theorem splitAt_of_not_mem {separator : Char} {cs : List Char} (h : separator ∉ cs) :
    splitAt separator cs = [cs] := by
  induction cs with
  | nil => rfl
  | cons c rest ih =>
    obtain ⟨hc, hrest⟩ := List.ne_and_not_mem_of_not_mem_cons h
    rw [splitAt, if_neg hc.symm, ih hrest]

theorem mem_of_mem_splitAt {separator : Char} {cs piece : List Char}
    (h : piece ∈ splitAt separator cs) : separator ∉ piece ∧ ∀ c ∈ piece, c ∈ cs := by
  induction cs generalizing piece with
  | nil =>
    rw [splitAt, List.mem_singleton] at h
    simp [h]
  | cons c rest ih =>
    rw [splitAt] at h
    split at h
    · rcases List.mem_cons.mp h with rfl | h
      · simp
      · obtain ⟨hfree, hsub⟩ := ih h
        exact ⟨hfree, fun x hx => List.mem_cons_of_mem c (hsub x hx)⟩
    · next hc =>
      cases hpieces : splitAt separator rest with
      | nil => exact absurd hpieces (splitAt_ne_nil separator rest)
      | cons first more =>
        rw [hpieces] at h ih
        rcases List.mem_cons.mp h with rfl | h
        · obtain ⟨hfree, hsub⟩ := ih List.mem_cons_self
          exact ⟨List.not_mem_cons_of_ne_of_not_mem (Ne.symm hc) hfree, List.cons_subset_cons c hsub⟩
        · obtain ⟨hfree, hsub⟩ := ih (List.mem_cons_of_mem first h)
          exact ⟨hfree, fun x hx => List.mem_cons_of_mem c (hsub x hx)⟩

theorem splitAt_joinWith {separator : Char} {pieces : List (List Char)} (hne : pieces ≠ [])
    (h : ∀ piece ∈ pieces, separator ∉ piece) :
    splitAt separator (joinWith separator pieces) = pieces := by
  induction pieces with
  | nil => exact absurd rfl hne
  | cons piece rest ih =>
    rw [List.forall_mem_cons] at h
    cases rest with
    | nil => rw [joinWith, List.intercalate_singleton, splitAt_of_not_mem h.1]
    | cons next rest =>
      have hrest := ih (by simp) h.2
      rw [joinWith] at hrest
      rw [joinWith, List.intercalate_cons_cons, List.append_assoc, List.singleton_append,
        splitAt_append, splitAt_of_not_mem h.1, hrest]
      rfl

/-- What follows joined pieces without a separator belongs to the last of them. -/
theorem splitAt_joinWith_append {separator : Char} {pieces : List (List Char)}
    {last tail : List Char}
    (h : ∀ piece ∈ pieces ++ [last], separator ∉ piece) (htail : separator ∉ tail) :
    splitAt separator (joinWith separator (pieces ++ [last]) ++ tail) =
      pieces ++ [last ++ tail] := by
  induction pieces with
  | nil =>
    have hlast : separator ∉ last := h last List.mem_cons_self
    rw [List.nil_append, joinWith, List.intercalate_singleton, List.nil_append]
    exact splitAt_of_not_mem fun hmem => (List.mem_append.mp hmem).elim hlast htail
  | cons piece rest ih =>
    rw [List.cons_append, List.forall_mem_cons] at h
    have hrest := ih h.2
    rw [joinWith] at hrest
    rw [List.cons_append, joinWith, List.intercalate_cons_of_ne_nil (by simp), List.append_assoc,
      List.append_assoc, List.singleton_append, splitAt_append, splitAt_of_not_mem h.1, hrest]
    rfl

theorem mem_joinWith {separator c : Char} {pieces : List (List Char)}
    (h : c ∈ joinWith separator pieces) : c = separator ∨ ∃ piece ∈ pieces, c ∈ piece := by
  induction pieces with
  | nil => simp [joinWith] at h
  | cons piece rest ih =>
    cases rest with
    | nil =>
      rw [joinWith, List.intercalate_singleton] at h
      exact .inr ⟨piece, List.mem_cons_self, h⟩
    | cons next rest =>
      rw [joinWith, List.intercalate_cons_cons, List.mem_append, List.mem_append,
        List.mem_singleton] at h
      rcases h with (h | h) | h
      · exact .inr ⟨piece, List.mem_cons_self, h⟩
      · exact .inl h
      · rcases ih h with h | ⟨found, hfound, hc⟩
        · exact .inl h
        · exact .inr ⟨found, List.mem_cons_of_mem piece hfound, hc⟩

theorem splitFirst?_append {separator : Char} {before : List Char} (h : separator ∉ before)
    (after : List Char) :
    splitFirst? separator (before ++ separator :: after) = some (before, after) := by
  induction before with
  | nil => rw [List.nil_append, splitFirst?, if_pos rfl]
  | cons c rest ih =>
    obtain ⟨hc, hrest⟩ := List.ne_and_not_mem_of_not_mem_cons h
    rw [List.cons_append, splitFirst?, if_neg hc.symm, ih hrest]
    rfl

/-- What stands before the first separator is free of it, and so is a text without separators. -/
theorem splitFirst?_spec (separator : Char) (cs : List Char) :
    match splitFirst? separator cs with
    | some (before, after) => cs = before ++ separator :: after ∧ separator ∉ before
    | none => separator ∉ cs := by
  induction cs with
  | nil => simp [splitFirst?]
  | cons c rest ih =>
    rw [splitFirst?]
    by_cases hc : c = separator
    · rw [if_pos hc]
      exact ⟨by rw [hc, List.nil_append], List.not_mem_nil⟩
    · rw [if_neg hc]
      cases hrest : splitFirst? separator rest with
      | none =>
        rw [hrest] at ih
        exact List.not_mem_cons_of_ne_of_not_mem (Ne.symm hc) ih
      | some pair =>
        rw [hrest] at ih
        exact ⟨congrArg (c :: ·) ih.1, List.not_mem_cons_of_ne_of_not_mem (Ne.symm hc) ih.2⟩

/-- What stands before the first character of a kind is determined by the text. -/
theorem append_cons_inj_of_kind {kind : Char → Bool} {before first after last : List Char}
    {c d : Char} (hbefore : ∀ x ∈ before, kind x = false) (hfirst : ∀ x ∈ first, kind x = false)
    (hc : kind c = true) (hd : kind d = true) (h : before ++ c :: after = first ++ d :: last) :
    before = first ∧ c = d ∧ after = last := by
  induction before generalizing first with
  | nil =>
    cases first with
    | nil => simpa using h
    | cons x first =>
      obtain ⟨rfl, -⟩ := List.cons.inj h
      exact absurd hc (by simp [hfirst c])
  | cons x before ih =>
    rw [List.forall_mem_cons] at hbefore
    cases first with
    | nil =>
      obtain ⟨rfl, -⟩ := List.cons.inj h
      exact absurd hd (by simp [hbefore.1])
    | cons y first =>
      rw [List.forall_mem_cons] at hfirst
      obtain ⟨rfl, hrest⟩ := List.cons.inj h
      obtain ⟨rfl, hsame⟩ := ih hbefore.2 hfirst.2 hrest
      exact ⟨rfl, hsame⟩

/-- A text without a character stands before all occurrences of it in what follows. -/
theorem exists_append_of_not_mem {text rest before after : List Char} {c : Char} (hc : c ∉ text)
    (h : text ++ rest = before ++ c :: after) :
    ∃ more, before = text ++ more ∧ rest = more ++ c :: after := by
  rcases List.append_eq_append_iff.mp h with ⟨more, hbefore, hrest⟩ | ⟨more, rfl, hrest⟩
  · exact ⟨more, hbefore, hrest⟩
  · rcases List.cons_eq_append_iff.mp hrest with ⟨rfl, hrest⟩ | ⟨more, rfl, -⟩
    · exact ⟨[], by simp, hrest.symm⟩
    · simp at hc

end LinkedApi.Text
