import LinkedApi.Text.Trim
import Mathlib.Data.List.DropRight
import Mathlib.Tactic.IntervalCases

/-!
# Trimmed texts

What is left of a text when it is trimmed is told by two properties: only white space is taken away,
from both ends, and no white space is left at either end. No other part of the text has them.
-/

namespace LinkedApi.Text

/-- The characters that count as white space. -/
def whiteSpace : List Char :=
  ['\t', '\n', Char.ofNat 0x0B, Char.ofNat 0x0C, '\r', ' ', Char.ofNat 0x85, Char.ofNat 0xA0,
    Char.ofNat 0x1680, Char.ofNat 0x2000, Char.ofNat 0x2001, Char.ofNat 0x2002, Char.ofNat 0x2003,
    Char.ofNat 0x2004, Char.ofNat 0x2005, Char.ofNat 0x2006, Char.ofNat 0x2007, Char.ofNat 0x2008,
    Char.ofNat 0x2009, Char.ofNat 0x200A, Char.ofNat 0x2028, Char.ofNat 0x2029, Char.ofNat 0x202F,
    Char.ofNat 0x205F, Char.ofNat 0x3000]

/-- A part of a text with only white space around it, and with none at its own ends. -/
structure Trimmed (text part : List Char) : Prop where
  around : ∃ before after, text = before ++ (part ++ after) ∧
    (∀ c ∈ before, c ∈ whiteSpace) ∧ ∀ c ∈ after, c ∈ whiteSpace
  first : ∀ c ∈ part.head?, c ∉ whiteSpace
  last : ∀ c ∈ part.getLast?, c ∉ whiteSpace

@[simp]
theorem isWhiteSpace_iff {c : Char} : isWhiteSpace c = true ↔ c ∈ whiteSpace := by
  constructor
  · intro h
    have hnumber : c.toNat ∈ whiteSpace.map Char.toNat := by
      simp only [isWhiteSpace, Bool.or_eq_true, Bool.and_eq_true, decide_eq_true_eq] at h
      have hrange : (9 ≤ c.toNat ∧ c.toNat ≤ 13) ∨ (0x2000 ≤ c.toNat ∧ c.toNat ≤ 0x200A) ∨
          c.toNat ∈ [0x20, 0x85, 0xA0, 0x1680, 0x2028, 0x2029, 0x202F, 0x205F, 0x3000] := by
        simp only [List.mem_cons, List.not_mem_nil, or_false]
        omega
      rcases hrange with ⟨hlow, hhigh⟩ | ⟨hlow, hhigh⟩ | hmem
      · generalize c.toNat = n at hlow hhigh ⊢
        interval_cases n <;> decide
      · generalize c.toNat = n at hlow hhigh ⊢
        interval_cases n <;> decide
      · have hall : ∀ n ∈ [0x20, 0x85, 0xA0, 0x1680, 0x2028, 0x2029, 0x202F, 0x205F, 0x3000],
            n ∈ whiteSpace.map Char.toNat := by decide
        exact hall _ hmem
    obtain ⟨c', hc', hsame⟩ := List.mem_map.mp hnumber
    rwa [← Char.toNat_inj.mp hsame]
  · have hall : whiteSpace.all isWhiteSpace = true := by decide
    exact List.all_eq_true.mp hall c

@[simp]
theorem isWhiteSpace_eq_false_iff {c : Char} : isWhiteSpace c = false ↔ c ∉ whiteSpace := by
  rw [← isWhiteSpace_iff, Bool.not_eq_true]

/-- What is dropped from the front ends where the first character is kept. -/
theorem dropWhile_append_kept {p : Char → Bool} {before rest : List Char}
    (hbefore : ∀ c ∈ before, p c = true) (hrest : ∀ c ∈ rest.head?, p c = false) :
    (before ++ rest).dropWhile p = rest := by
  rw [List.dropWhile_append_of_pos hbefore]
  cases rest with
  | nil => rfl
  | cons c rest => exact List.dropWhile_cons_of_neg (by simp [hrest c rfl])

/-- White space at the end is removed up to the last other character. -/
theorem trimEnd_append {part after : List Char} (hafter : ∀ c ∈ after, c ∈ whiteSpace)
    (hlast : ∀ c ∈ part.getLast?, c ∉ whiteSpace) : trimEnd (part ++ after) = part := by
  have hdropped : (after.reverse ++ part.reverse).dropWhile isWhiteSpace = part.reverse := by
    refine dropWhile_append_kept (fun c hc => ?_) fun c hc => ?_
    · exact isWhiteSpace_iff.mpr (hafter c (List.mem_reverse.mp hc))
    · rw [List.head?_reverse] at hc
      exact isWhiteSpace_eq_false_iff.mpr (hlast c hc)
  rw [trimEnd, List.reverse_append, hdropped, List.reverse_reverse]

/-- A part of a text that is trimmed is what trimming gives. -/
theorem Trimmed.eq_trim {text part : List Char} (h : Trimmed text part) : part = trim text := by
  obtain ⟨before, after, rfl, hbefore, hafter⟩ := h.around
  have hwhite : ∀ c ∈ before, isWhiteSpace c = true := fun c hc =>
    isWhiteSpace_iff.mpr (hbefore c hc)
  cases part with
  | nil =>
    have hall : (before ++ ([] ++ after)).dropWhile isWhiteSpace = [] :=
      List.dropWhile_eq_nil_iff.mpr fun c hc => isWhiteSpace_iff.mpr
        ((List.mem_append.mp hc).elim (hbefore c) (hafter c))
    rw [trim, hall]
    rfl
  | cons c part =>
    have hkept : (before ++ (c :: part ++ after)).dropWhile isWhiteSpace = c :: part ++ after := by
      refine dropWhile_append_kept hwhite fun c' hc' => ?_
      exact isWhiteSpace_eq_false_iff.mpr (h.first c' hc')
    rw [trim, hkept, trimEnd_append hafter h.last]

/-- Trimming removes the white space at both ends and nothing else. -/
theorem trimmed_trim (text : List Char) : Trimmed text (trim text) := by
  have hprefix : trim text <+: text.dropWhile isWhiteSpace := List.rdropWhile_prefix isWhiteSpace _
  constructor
  · refine ⟨text.takeWhile isWhiteSpace, (text.dropWhile isWhiteSpace).rtakeWhile isWhiteSpace,
      ?_, fun c hc => isWhiteSpace_iff.mp (List.mem_takeWhile_imp hc),
      fun c hc => isWhiteSpace_iff.mp (List.mem_rtakeWhile_imp hc)⟩
    have hparts : trim text ++ (text.dropWhile isWhiteSpace).rtakeWhile isWhiteSpace =
        text.dropWhile isWhiteSpace := List.rdropWhile_append_rtakeWhile
    rw [hparts, List.takeWhile_append_dropWhile]
  · intro c hc
    obtain ⟨after, hafter⟩ := hprefix
    have hhead : (text.dropWhile isWhiteSpace).head? = some c := by
      rw [← hafter, List.head?_append, Option.mem_def.mp hc, Option.some_or]
    have hkept := List.head?_dropWhile_not isWhiteSpace text
    rw [hhead] at hkept
    exact isWhiteSpace_eq_false_iff.mp hkept
  · intro c hc
    obtain ⟨hne, rfl⟩ := List.mem_getLast?_eq_getLast hc
    have hkept := List.rdropWhile_last_not isWhiteSpace (text.dropWhile isWhiteSpace) hne
    exact isWhiteSpace_eq_false_iff.mp (Bool.eq_false_iff.mpr hkept)

end LinkedApi.Text
