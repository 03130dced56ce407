import LinkedApi.Text.Digits
import Mathlib.Data.List.Induction
import Mathlib.Tactic.Common

/-!
# Decimal numerals

A number is read back from its decimal digits. Digits are those of the number that they are read as
exactly when they have no leading zero.
-/

namespace LinkedApi.Text

theorem isDigit_iff {c : Char} : isDigit c = true ↔ '0' ≤ c ∧ c ≤ '9' := by
  simp [isDigit]

theorem isDigit_of_mem_decimal {n : Nat} {c : Char} (h : c ∈ decimal n) : isDigit c = true := by
  have hdigit := Nat.isDigit_of_mem_toDigits (by decide) (by decide) h
  rw [Char.isDigit, Bool.and_eq_true, decide_eq_true_iff, decide_eq_true_iff] at hdigit
  exact isDigit_iff.mpr hdigit

theorem numeralFrom_ten {digits : List Char} (h : ∀ c ∈ digits, isDigit c = true) (acc : Nat) :
    numeralFrom 10 acc digits = some (Nat.ofDigitChars 10 digits acc) := by
  induction digits generalizing acc with
  | nil => rw [numeralFrom, Nat.ofDigitChars_nil]
  | cons c rest ih =>
    rw [List.forall_mem_cons] at h
    have hdigit : '0' ≤ c ∧ c ≤ '9' := isDigit_iff.mp h.1
    have hle : c.toNat ≤ 57 := hdigit.2
    rw [numeralFrom, digitValue?, if_pos hdigit]
    dsimp only
    rw [if_pos (by omega), ih h.2, Nat.ofDigitChars_cons, Nat.mul_comm acc]
    rfl

theorem isDigit_of_digitValue? {c : Char} {d : Nat} (h : digitValue? c = some d) (hd : d < 10) :
    isDigit c = true := by
  unfold digitValue? at h
  split at h
  · next hc => exact isDigit_iff.mpr hc
  split at h
  · next hc =>
    have hle : 97 ≤ c.toNat := hc.1
    cases h
    omega
  split at h
  · next hc =>
    have hle : 65 ≤ c.toNat := hc.1
    cases h
    omega
  · cases h

theorem isDigit_of_numeralFrom {digits : List Char} {acc n : Nat}
    (h : numeralFrom 10 acc digits = some n) : ∀ c ∈ digits, isDigit c = true := by
  induction digits generalizing acc with
  | nil => simp
  | cons c rest ih =>
    rw [numeralFrom] at h
    split at h
    · next d hvalue =>
      split at h
      · next hd => exact List.forall_mem_cons.mpr ⟨isDigit_of_digitValue? hvalue hd, ih h⟩
      · cases h
    · cases h

/-- A text is a decimal numeral when it has digits only, and at least one. -/
theorem numeral?_eq_some_iff {digits : List Char} {n : Nat} :
    numeral? 10 digits = some n ↔
      digits ≠ [] ∧ (∀ c ∈ digits, isDigit c = true) ∧ Nat.ofDigitChars 10 digits 0 = n := by
  rw [numeral?]
  split
  · next hempty => simp [List.isEmpty_iff.mp hempty]
  · next hempty =>
    have hne : digits ≠ [] := fun h => hempty (by simp [h])
    constructor
    · intro h
      have hdigit := isDigit_of_numeralFrom h
      rw [numeralFrom_ten hdigit] at h
      exact ⟨hne, hdigit, Option.some.inj h⟩
    · rintro ⟨-, hdigit, rfl⟩
      exact numeralFrom_ten hdigit 0

@[simp]
theorem numeral?_decimal (n : Nat) : numeral? 10 (decimal n) = some n := by
  have hne : ¬(decimal n).isEmpty = true := by
    rw [List.isEmpty_iff]
    exact Nat.toDigits_ne_nil
  rw [numeral?, if_neg hne, numeralFrom_ten fun _ => isDigit_of_mem_decimal]
  exact congrArg some (Nat.ofDigitChars_ten_toDigits)

/-! ## Numerals without leading zeros -/

def HasNoLeadingZero (digits : List Char) : Prop := digits.head? = some '0' → digits = ['0']

theorem digitValue_lt {c : Char} (h : isDigit c = true) : c.toNat - '0'.toNat < 10 := by
  have hle : c.toNat ≤ 57 := (isDigit_iff.mp h).2
  change c.toNat - 48 < 10
  omega

theorem digitChar_digitValue {c : Char} (h : isDigit c = true) :
    Nat.digitChar (c.toNat - '0'.toNat) = c := by
  have hle : 48 ≤ c.toNat := (isDigit_iff.mp h).1
  have hall : ∀ d < 10, Nat.digitChar d = Char.ofNat (48 + d) := by decide
  rw [hall _ (digitValue_lt h)]
  change Char.ofNat (48 + (c.toNat - 48)) = c
  rw [Nat.add_sub_cancel' hle, Char.ofNat_toNat]

/-- A positive number does not begin with a zero. -/
theorem head?_decimal_ne {n : Nat} (h : 0 < n) : (decimal n).head? ≠ some '0' := by
  induction n using Nat.strongRecOn with
  | ind n ih =>
    rcases Nat.lt_or_ge n 10 with hlt | hge
    · have hdigit : ∀ n < 10, 0 < n → [Nat.digitChar n].head? ≠ some '0' := by decide
      rw [decimal, Nat.toDigits_of_lt_base hlt]
      exact hdigit n hlt h
    · rw [decimal, Nat.toDigits_of_base_le (by decide) hge, List.head?_append]
      have hfirst := ih (n / 10) (by omega) (by omega)
      rw [decimal] at hfirst
      cases hhead : (Nat.toDigits 10 (n / 10)).head? with
      | none => exact absurd (List.head?_eq_none_iff.mp hhead) Nat.toDigits_ne_nil
      | some c => simpa [hhead] using hfirst

/-- Digits are those of their number exactly when they have no leading zero. -/
theorem decimal_ofDigitChars_iff {digits : List Char} (hne : digits ≠ [])
    (hdigit : ∀ c ∈ digits, isDigit c = true) :
    decimal (Nat.ofDigitChars 10 digits 0) = digits ↔ HasNoLeadingZero digits := by
  constructor
  · intro h hzero
    rcases Nat.eq_zero_or_pos (Nat.ofDigitChars 10 digits 0) with hvalue | hvalue
    · rw [← h, hvalue]
      decide
    · have hfirst := head?_decimal_ne hvalue
      rw [h] at hfirst
      exact absurd hzero hfirst
  · intro h
    induction digits using List.reverseRecOn with
    | nil => exact absurd rfl hne
    | append_singleton digits c ih =>
      rw [List.forall_mem_append, List.forall_mem_singleton] at hdigit
      obtain ⟨hdigits, hc⟩ := hdigit
      have hvalue : Nat.ofDigitChars 10 (digits ++ [c]) 0 =
          10 * Nat.ofDigitChars 10 digits 0 + (c.toNat - '0'.toNat) := by
        rw [Nat.ofDigitChars_append, Nat.ofDigitChars_cons, Nat.ofDigitChars_nil]
      have hlast : decimal (c.toNat - '0'.toNat) = [c] := by
        rw [decimal, Nat.toDigits_of_lt_base (digitValue_lt hc), digitChar_digitValue hc]
      by_cases hempty : digits = []
      · subst hempty
        rw [hvalue]
        simpa using hlast
      have hfirst : digits.head? ≠ some '0' := by
        intro hzero
        have hsingle := h (by rw [List.head?_append, hzero]; rfl)
        cases digits with
        | nil => exact hempty rfl
        | cons d digits => simp at hsingle
      have hsame : decimal (Nat.ofDigitChars 10 digits 0) = digits :=
        ih hempty hdigits fun hzero => absurd hzero hfirst
      have hpos : 0 < Nat.ofDigitChars 10 digits 0 := by
        refine Nat.pos_of_ne_zero fun hzero => hfirst ?_
        rw [← hsame, hzero]
        rfl
      rw [hvalue, decimal, ← Nat.toDigits_append_toDigits (by decide) hpos (digitValue_lt hc)]
      change decimal _ ++ decimal _ = _
      rw [hsame, hlast]

end LinkedApi.Text
