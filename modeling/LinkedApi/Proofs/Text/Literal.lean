import LinkedApi.Text.Literal
import Mathlib.Data.List.Basic
import Mathlib.Tactic.IntervalCases

/-!
# Reading literals

A literal is read character by character up to its closing quote. Whatever a text contains and
whatever follows its literal, reading gives the text and leaves what follows. No character of a
literal ends a line.
-/

namespace LinkedApi.Text

/-! ## Numerals -/

theorem numeralFrom_append (base acc : Nat) (xs ys : List Char) :
    numeralFrom base acc (xs ++ ys) =
      (numeralFrom base acc xs).bind fun value => numeralFrom base value ys := by
  induction xs generalizing acc with
  | nil => rfl
  | cons c rest ih =>
    rw [List.cons_append, numeralFrom, numeralFrom]
    split
    · split
      · exact ih _
      · rfl
    · rfl

theorem digitValue?_digitChar {d : Nat} (h : d < 16) : digitValue? (Nat.digitChar d) = some d := by
  interval_cases d <;> rfl

theorem numeralFrom_digitChar {d : Nat} (h : d < 16) (acc : Nat) :
    numeralFrom 16 acc [Nat.digitChar d] = some (acc * 16 + d) := by
  rw [numeralFrom, digitValue?_digitChar h]
  exact if_pos h

/-- The last digit of a number comes off the end. -/
theorem hexadecimal_eq (n : Nat) :
    hexadecimal n = (if n < 16 then [] else hexadecimal (n / 16)) ++ [Nat.digitChar (n % 16)] := by
  unfold hexadecimal
  rw [Nat.toDigits_eq_if (by decide)]
  split
  · next hn => rw [Nat.mod_eq_of_lt hn, List.nil_append]
  · rfl

theorem numeralFrom_hexadecimal (n : Nat) : numeralFrom 16 0 (hexadecimal n) = some n := by
  induction n using Nat.strongRecOn with
  | ind n ih =>
    have hlast : n % 16 < 16 := Nat.mod_lt n (by decide)
    rw [hexadecimal_eq, numeralFrom_append]
    by_cases hn : n < 16
    · rw [if_pos hn]
      exact (numeralFrom_digitChar hlast 0).trans (congrArg some (by omega))
    · rw [if_neg hn, ih (n / 16) (by omega)]
      exact (numeralFrom_digitChar hlast (n / 16)).trans (congrArg some (by omega))

theorem length_hexadecimal_le (width : Nat) {n : Nat} (h : n < 16 ^ (width + 1)) :
    (hexadecimal n).length ≤ width + 1 := by
  induction width generalizing n with
  | zero =>
    rw [hexadecimal_eq, if_pos (by omega)]
    rfl
  | succ width ih =>
    rw [hexadecimal_eq]
    split
    · simp
    · have hshorter := ih (n := n / 16) (by rw [pow_succ] at h; omega)
      rw [List.length_append, List.length_singleton]
      omega

@[simp]
theorem numeralFrom_zeros (n : Nat) : numeralFrom 16 0 (List.replicate n '0') = some 0 := by
  induction n with
  | zero => rfl
  | succ n ih => exact ih

/-- A number is read back from its hexadecimal digits, also after zeros. -/
@[simp]
theorem numeralFrom_paddedHexadecimal (width n : Nat) :
    numeralFrom 16 0 (paddedHexadecimal width n) = some n := by
  rw [paddedHexadecimal, numeralFrom_append, numeralFrom_zeros]
  exact numeralFrom_hexadecimal n

theorem length_paddedHexadecimal {n : Nat} (h : n < 16 ^ 4) :
    (paddedHexadecimal 4 n).length = 4 := by
  have hlength := length_hexadecimal_le 3 h
  rw [paddedHexadecimal, List.length_append, List.length_replicate]
  omega

/-! ## Reading -/

def isLineTerminator (c : Char) : Bool := c = '\n' || c = '\r' || isLineSeparator c

/-- The character of a number; none belongs to half of a surrogate pair. -/
def charOf? (n : Nat) : Option Char := if n.isValidChar then some (Char.ofNat n) else none

/-- What a character stands for after a backslash. -/
def unescaped? : Char → Option Char
  | '\\' => some '\\'
  | '\'' => some '\''
  | 'n' => some '\n'
  | 'r' => some '\r'
  | 't' => some '\t'
  | _ => none

/-- Put the character that has been read before what is read after it. -/
def prepend? (c : Option Char) (read : Option (List Char × List Char)) :
    Option (List Char × List Char) :=
  c.bind fun c => read.map fun (cs, rest) => (c :: cs, rest)

/-- Read up to the first quote that is not escaped: the text, and what follows the quote. Nothing is
read where a line ends before the quote, or where a backslash begins no escape. -/
def readToQuote? : List Char → Option (List Char × List Char)
  | [] => none
  | '\'' :: rest => some ([], rest)
  | '\\' :: 'u' :: d₃ :: d₂ :: d₁ :: d₀ :: rest =>
    prepend? ((numeral? 16 [d₃, d₂, d₁, d₀]).bind charOf?) (readToQuote? rest)
  | '\\' :: e :: rest => prepend? (unescaped? e) (readToQuote? rest)
  | c :: rest =>
    if c = '\\' || isLineTerminator c then none else prepend? (some c) (readToQuote? rest)

/-- Read a text between single quotes, and give what follows it. -/
def readLiteral? : List Char → Option (List Char × List Char)
  | '\'' :: rest => readToQuote? rest
  | _ => none

@[simp]
theorem charOf?_toNat (c : Char) : charOf? c.toNat = some c := by
  exact (if_pos c.valid).trans (congrArg some (Char.ofNat_toNat c))

theorem lt_of_escaped {c : Char} (h : (isLineSeparator c || isControl c) = true) :
    c.toNat < 16 ^ 4 := by
  simp only [isLineSeparator, isControl, Bool.or_eq_true, Bool.and_eq_true, decide_eq_true_eq] at h
  omega

theorem readToQuote?_paddedHexadecimal {c : Char} (h : c.toNat < 16 ^ 4) (rest : List Char) :
    readToQuote? ('\\' :: 'u' :: paddedHexadecimal 4 c.toNat ++ rest) =
      prepend? (some c) (readToQuote? rest) := by
  obtain ⟨d₃, d₂, d₁, d₀, hdigits⟩ := List.length_eq_four.mp (length_paddedHexadecimal h)
  have hvalue : numeral? 16 [d₃, d₂, d₁, d₀] = some c.toNat := by
    have hnumeral := numeralFrom_paddedHexadecimal 4 c.toNat
    rwa [hdigits] at hnumeral
  have hread : readToQuote? ('\\' :: 'u' :: d₃ :: d₂ :: d₁ :: d₀ :: rest) =
      prepend? ((numeral? 16 [d₃, d₂, d₁, d₀]).bind charOf?) (readToQuote? rest) := rfl
  rw [hdigits]
  refine hread.trans ?_
  rw [hvalue, Option.bind_some, charOf?_toNat]

/-- Each character is read back from what is written for it, whatever follows. -/
theorem readToQuote?_escapeInLiteral (c : Char) (rest : List Char) :
    readToQuote? (escapeInLiteral c ++ rest) = prepend? (some c) (readToQuote? rest) := by
  unfold escapeInLiteral
  split_ifs with hbackslash hquote hnewline hreturn htab hescaped
  · rw [hbackslash]; rfl
  · rw [hquote]; rfl
  · rw [hnewline]; rfl
  · rw [hreturn]; rfl
  · rw [htab]; rfl
  · exact readToQuote?_paddedHexadecimal (lt_of_escaped hescaped) rest
  · have hplain : ¬(decide (c = '\\') || isLineTerminator c) := by
      simp only [Bool.or_eq_true, not_or] at hescaped
      simp [isLineTerminator, hbackslash, hnewline, hreturn, hescaped.1]
    rw [List.singleton_append, readToQuote?, if_neg hplain]
    · exact hquote
    · exact fun _ _ _ _ _ hc _ => hbackslash hc
    · exact fun _ _ hc _ => hbackslash hc

/-- An escaped text is read back, up to the quote that ends it. -/
@[simp]
theorem readToQuote?_flatMap (cs rest : List Char) :
    readToQuote? (cs.flatMap escapeInLiteral ++ '\'' :: rest) = some (cs, rest) := by
  -- after each character the reader stands before the next one, whatever was written for it
  induction cs with
  | nil => rfl
  | cons c cs ih =>
    rw [List.flatMap_cons, List.append_assoc, readToQuote?_escapeInLiteral, ih]
    rfl

/-- A literal is read to its own closing quote and gives its text, whatever follows. -/
@[simp]
theorem readLiteral?_literal (cs rest : List Char) :
    readLiteral? (literal cs ++ rest) = some (cs, rest) := by
  rw [literal, List.cons_append, List.cons_append, List.append_assoc]
  exact readToQuote?_flatMap cs rest

theorem literal_injective : Function.Injective literal := by
  intro xs ys h
  have hread : readLiteral? (literal xs ++ []) = readLiteral? (literal ys ++ []) := by rw [h]
  rw [readLiteral?_literal, readLiteral?_literal] at hread
  exact congrArg Prod.fst (Option.some.inj hread)

/-! ## Lines -/

theorem newline_not_mem {cs : List Char} (h : ∀ c ∈ cs, isLineTerminator c = false) : '\n' ∉ cs :=
  fun hmem => absurd (h '\n' hmem) (by decide)

theorem isLineTerminator_of_any {cs : List Char} (h : cs.any isLineTerminator = false) :
    ∀ c ∈ cs, isLineTerminator c = false :=
  fun c hc => Bool.eq_false_of_not_eq_true (List.any_eq_false.mp h c hc)

theorem isLineTerminator_hexadecimal (n : Nat) :
    ∀ c ∈ hexadecimal n, isLineTerminator c = false := by
  have hdigits : ∀ d < 16, isLineTerminator (Nat.digitChar d) = false := by decide
  induction n using Nat.strongRecOn with
  | ind n ih =>
    rw [hexadecimal_eq, List.forall_mem_append, List.forall_mem_singleton]
    constructor
    · split
      · exact fun _ hc => nomatch hc
      · exact ih (n / 16) (by omega)
    · exact hdigits (n % 16) (Nat.mod_lt n (by decide))

theorem isLineTerminator_paddedHexadecimal (width n : Nat) :
    ∀ c ∈ paddedHexadecimal width n, isLineTerminator c = false := by
  rw [paddedHexadecimal, List.forall_mem_append]
  refine ⟨?_, isLineTerminator_hexadecimal n⟩
  intro c hc
  rw [List.eq_of_mem_replicate hc]
  decide

theorem isLineTerminator_escapeInLiteral (c : Char) :
    ∀ x ∈ escapeInLiteral c, isLineTerminator x = false := by
  unfold escapeInLiteral
  split_ifs with hbackslash hquote hnewline hreturn htab hescaped
  · exact isLineTerminator_of_any (by decide)
  · exact isLineTerminator_of_any (by decide)
  · exact isLineTerminator_of_any (by decide)
  · exact isLineTerminator_of_any (by decide)
  · exact isLineTerminator_of_any (by decide)
  · rw [List.forall_mem_cons, List.forall_mem_cons]
    exact ⟨by decide, by decide, isLineTerminator_paddedHexadecimal 4 c.toNat⟩
  · simp only [Bool.or_eq_true, not_or] at hescaped
    simp [isLineTerminator, hnewline, hreturn, hescaped.1]

theorem isLineTerminator_literal (cs : List Char) :
    ∀ c ∈ literal cs, isLineTerminator c = false := by
  have hquote : isLineTerminator '\'' = false := by decide
  rw [literal, List.forall_mem_append, List.forall_mem_cons, List.forall_mem_singleton]
  refine ⟨⟨hquote, ?_⟩, hquote⟩
  intro x hx
  obtain ⟨c, -, hc⟩ := List.mem_flatMap.mp hx
  exact isLineTerminator_escapeInLiteral c x hc

end LinkedApi.Text
