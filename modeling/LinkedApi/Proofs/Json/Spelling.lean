import LinkedApi.Json.Parser
import LinkedApi.Json.Printer
import LinkedApi.Proofs.Text.Digits
import LinkedApi.Proofs.Text.Literal
import Mathlib.Data.List.TakeDrop

/-!
# Spellings of JSON values

A value can be written in many ways: blanks may stand between its parts, and a character of a string
may be written as it is, by a short escape, or by the numbers of its code units. Each spelling of a
string is read as this string, and each spelling of an integer as this integer. The compact text of
a value is one of its spellings.
-/

namespace LinkedApi.Json

open Text

/-! ## Strings -/

/-- The characters that have a short escape, with the letter of the escape. -/
def shortEscapes : List (Char × Char) :=
  [('"', '"'), ('\\', '\\'), ('/', '/'), ('b', Char.ofNat 8), ('f', Char.ofNat 12), ('n', '\n'),
    ('r', '\r'), ('t', '\t')]

inductive SpellsChar (c : Char) : List Char → Prop where
  | plain (control : 32 ≤ c.toNat) (quote : c ≠ '"') (backslash : c ≠ '\\') : SpellsChar c [c]
  | short {letter : Char} (escape : (letter, c) ∈ shortEscapes) : SpellsChar c ['\\', letter]
  | unit {d₃ d₂ d₁ d₀ : Char} (value : numeral? 16 [d₃, d₂, d₁, d₀] = some c.toNat) :
    SpellsChar c ['\\', 'u', d₃, d₂, d₁, d₀]
  /-- The two halves of a surrogate pair. -/
  | pair {d₃ d₂ d₁ d₀ e₃ e₂ e₁ e₀ : Char} {high low : Nat}
    (high_value : numeral? 16 [d₃, d₂, d₁, d₀] = some high)
    (low_value : numeral? 16 [e₃, e₂, e₁, e₀] = some low)
    (high_range : 0xD800 ≤ high ∧ high < 0xDC00) (low_range : 0xDC00 ≤ low ∧ low < 0xE000)
    (value : c.toNat = 0x10000 + (high - 0xD800) * 0x400 + (low - 0xDC00)) :
    SpellsChar c ['\\', 'u', d₃, d₂, d₁, d₀, '\\', 'u', e₃, e₂, e₁, e₀]

def SpellsChars : List Char → List Char → Prop
  | [], text => text = []
  | c :: cs, text => ∃ first more, text = first ++ more ∧ SpellsChar c first ∧ SpellsChars cs more

def SpellsString (s : String) (text : List Char) : Prop :=
  ∃ body, text = '"' :: (body ++ ['"']) ∧ SpellsChars s.toList body

/-! ## Values -/

def AreBlank (cs : List Char) : Prop := ∀ c ∈ cs, isBlank c = true

/-- A text of a kind with blanks around it. -/
def Padded (kind : List Char → Prop) (text : List Char) : Prop :=
  ∃ before inner after, text = before ++ (inner ++ after) ∧ AreBlank before ∧ kind inner ∧
    AreBlank after

mutual

/-- How a value may be written, with blanks around it. Only integers are considered among the
numbers; they are written in one way. -/
def Spells : Json → List Char → Prop
  | .null => Padded (· = ['n', 'u', 'l', 'l'])
  | .bool true => Padded (· = ['t', 'r', 'u', 'e'])
  | .bool false => Padded (· = ['f', 'a', 'l', 's', 'e'])
  | .int n => Padded (· = decimalInt n)
  | .float _ => fun _ => False
  | .str s => Padded (SpellsString s)
  | .arr items =>
    Padded fun text => ∃ inner, text = '[' :: (inner ++ [']']) ∧ SpellsItems items inner
  | .obj fields =>
    Padded fun text => ∃ inner, text = '{' :: (inner ++ ['}']) ∧ SpellsFields fields inner

def SpellsItems : List Json → List Char → Prop
  | [] => AreBlank
  | [item] => Spells item
  | item :: next :: rest => fun text =>
    ∃ first more, text = first ++ ',' :: more ∧ Spells item first ∧ SpellsItems (next :: rest) more

def SpellsFields : List (String × Json) → List Char → Prop
  | [] => AreBlank
  | [(key, value)] => fun text =>
    ∃ name first, text = name ++ ':' :: first ∧ Padded (SpellsString key) name ∧ Spells value first
  | (key, value) :: next :: rest => fun text =>
    ∃ name first more, text = name ++ ':' :: (first ++ ',' :: more) ∧
      Padded (SpellsString key) name ∧ Spells value first ∧ SpellsFields (next :: rest) more

end

mutual

/-- Whether a value is built from null, booleans, strings and integers that fit a signed or unsigned
64-bit word, with each key of an object once. -/
def IsExact : Json → Prop
  | .int n => -(twoTo 63 : Int) ≤ n ∧ n < twoTo 64
  | .float _ => False
  | .arr items => AreExact items
  | .obj fields => (fields.map Prod.fst).Nodup ∧ HasExactFields fields
  | _ => True

def AreExact : List Json → Prop
  | [] => True
  | item :: rest => IsExact item ∧ AreExact rest

def HasExactFields : List (String × Json) → Prop
  | [] => True
  | (_, value) :: rest => IsExact value ∧ HasExactFields rest

end

mutual

def levels : Json → Nat
  | .arr items => levelsOfItems items + 1
  | .obj fields => levelsOfFields fields + 1
  | _ => 0

def levelsOfItems : List Json → Nat
  | [] => 0
  | item :: rest => max (levels item) (levelsOfItems rest)

def levelsOfFields : List (String × Json) → Nat
  | [] => 0
  | (_, value) :: rest => max (levels value) (levelsOfFields rest)

end

/-! ## Reading strings -/

/-- The character that has been read stands before what is read after it. -/
def before? (c : Char) (read : Option (List Char × List Char)) : Option (List Char × List Char) :=
  read.map fun (body, rest) => (c :: body, rest)

theorem unescape?_of_mem {letter c : Char} (h : (letter, c) ∈ shortEscapes) :
    unescape? letter = some c ∧ letter ≠ 'u' := by
  have hall : ∀ escape ∈ shortEscapes, unescape? escape.1 = some escape.2 ∧ escape.1 ≠ 'u' := by
    decide
  exact hall _ h

theorem stringBody?_spellsChar {c : Char} {first : List Char} (h : SpellsChar c first)
    (rest : List Char) : stringBody? (first ++ rest) = before? c (stringBody? rest) := by
  cases h with
  | plain control quote backslash =>
    have hplain : ¬(c.toNat < 32 ∨ c = '\\') := by
      rintro (hlow | rfl)
      · omega
      · exact backslash rfl
    rw [List.singleton_append, stringBody?, if_neg hplain]
    · cases stringBody? rest <;> rfl
    · exact quote
    · exact fun _ _ _ _ _ hc _ => backslash hc
    · exact fun _ _ hc _ => backslash hc
  | @short letter escape =>
    obtain ⟨hvalue, hletter⟩ := unescape?_of_mem escape
    rw [List.cons_append, List.singleton_append, stringBody?, hvalue]
    · cases stringBody? rest <;> rfl
    · exact fun _ _ _ _ _ hu _ => hletter hu
  | @unit d₃ d₂ d₁ d₀ value =>
    have hread : codeUnit? d₃ d₂ d₁ d₀ = some c.toNat := value
    have hvalid : c.toNat < 0xD800 ∨ 0xDFFF < c.toNat ∧ c.toNat < 0x110000 := c.valid
    have hlow : isLowSurrogate c.toNat = false := by
      simp only [isLowSurrogate, Bool.and_eq_false_iff, decide_eq_false_iff_not]
      omega
    have hhigh : isHighSurrogate c.toNat = false := by
      simp only [isHighSurrogate, Bool.and_eq_false_iff, decide_eq_false_iff_not]
      omega
    simp only [List.cons_append, List.nil_append, stringBody?, hread, hlow, hhigh,
      Option.bind_eq_bind, Option.bind_some, Bool.false_eq_true, if_false, Char.ofNat_toNat]
    cases stringBody? rest <;> rfl
  | @pair d₃ d₂ d₁ d₀ e₃ e₂ e₁ e₀ high low high_value low_value high_range low_range value =>
    have hhigh : codeUnit? d₃ d₂ d₁ d₀ = some high := high_value
    have hlow : codeUnit? e₃ e₂ e₁ e₀ = some low := low_value
    have hfirst : isLowSurrogate high = false := by
      simp only [isLowSurrogate, Bool.and_eq_false_iff, decide_eq_false_iff_not]
      omega
    have hsecond : isHighSurrogate high = true := by simp [isHighSurrogate, high_range]
    have hthird : isLowSurrogate low = true := by simp [isLowSurrogate, low_range]
    have hjoined : joinSurrogates high low = c := by
      rw [joinSurrogates, ← value, Char.ofNat_toNat]
    simp only [List.cons_append, List.nil_append, stringBody?, hhigh, hlow, hfirst, hsecond, hthird,
      hjoined, Option.bind_eq_bind, Option.bind_some, Bool.false_eq_true, if_false, if_true]
    cases stringBody? rest <;> rfl

/-- A string is read up to its quote. -/
theorem stringBody?_spellsChars {cs text : List Char} (h : SpellsChars cs text)
    (rest : List Char) : stringBody? (text ++ '"' :: rest) = some (cs, rest) := by
  induction cs generalizing text with
  | nil =>
    obtain rfl : text = [] := h
    rfl
  | cons c cs ih =>
    obtain ⟨first, more, rfl, hfirst, hmore⟩ := h
    rw [List.append_assoc, stringBody?_spellsChar hfirst, ih hmore]
    rfl

/-! ## Reading integers -/

def EndsNumeral (rest : List Char) : Prop :=
  ∀ c ∈ rest.head?, isDigit c = false ∧ c ≠ '.' ∧ c ≠ 'e' ∧ c ≠ 'E'

theorem le_ofDigitChars (digits : List Char) (acc : Nat) :
    acc ≤ Nat.ofDigitChars 10 digits acc := by
  induction digits generalizing acc with
  | nil => rw [Nat.ofDigitChars_nil]
  | cons c rest ih =>
    have hnext := ih (10 * acc + (c.toNat - '0'.toNat))
    rw [Nat.ofDigitChars_cons]
    omega

/-- A number that fits 64 bits is read digit by digit. -/
theorem absorb_eq {digits : List Char} {acc : Nat}
    (h : Nat.ofDigitChars 10 digits acc < twoTo 64) :
    absorb acc digits = (Nat.ofDigitChars 10 digits acc, 0) := by
  induction digits generalizing acc with
  | nil => rw [absorb, Nat.ofDigitChars_nil]
  | cons c rest ih =>
    rw [Nat.ofDigitChars_cons, Nat.mul_comm] at h
    have hnext : acc * 10 + (c.toNat - 48) < twoTo 64 :=
      Nat.lt_of_le_of_lt (le_ofDigitChars rest _) h
    rw [absorb, Nat.ofDigitChars_cons, Nat.mul_comm 10]
    exact (if_pos hnext).trans (ih h)

theorem digitRun_append {digits rest : List Char} (h : ∀ c ∈ digits, isDigit c = true)
    (hrest : EndsNumeral rest) : digitRun (digits ++ rest) = (digits, rest) := by
  have hstop : rest.takeWhile isDigit = [] ∧ rest.dropWhile isDigit = rest := by
    cases rest with
    | nil => exact ⟨rfl, rfl⟩
    | cons c rest =>
      have hc : ¬isDigit c = true := by simp [(hrest c rfl).1]
      exact ⟨List.takeWhile_cons_of_neg hc, List.dropWhile_cons_of_neg hc⟩
  rw [digitRun, List.span_eq_takeWhile_dropWhile, List.takeWhile_append_of_pos h,
    List.dropWhile_append_of_pos h, hstop.1, hstop.2, List.append_nil]

theorem wholePart?_decimal (n : Nat) {rest : List Char} (h : EndsNumeral rest) :
    wholePart? (decimal n ++ rest) = some (decimal n, rest) := by
  rw [wholePart?, digitRun_append (fun _ => isDigit_of_mem_decimal) h]
  split
  · next heq => exact absurd (Prod.mk.inj heq).1 Nat.toDigits_ne_nil
  · next c more _ heq =>
    -- only zero begins with a zero, and it has no other digit
    have hzero : decimal n = '0' :: c :: more := (Prod.mk.inj heq).1
    rcases Nat.eq_zero_or_pos n with rfl | hpos
    · cases hzero
    · exact absurd (by rw [hzero]; rfl) (head?_decimal_ne hpos)
  · next heq => rw [(Prod.mk.inj heq).1, (Prod.mk.inj heq).2]

theorem fractionPart?_of_ends {rest : List Char} (h : EndsNumeral rest) :
    fractionPart? rest = some (none, rest) := by
  cases rest with
  | nil => rfl
  | cons c rest =>
    rw [fractionPart?]
    exact fun _ hpoint => (h c rfl).2.1 (List.cons.inj hpoint).1

theorem exponentPart?_of_ends {rest : List Char} (h : EndsNumeral rest) :
    exponentPart? rest = some (none, rest) := by
  cases rest with
  | nil => rfl
  | cons c rest =>
    unfold exponentPart?
    exact if_neg (not_or.mpr (h c rfl).2.2)

/-- The digits of a number begin with a digit. -/
theorem exists_decimal (n : Nat) : ∃ d digits, decimal n = d :: digits ∧ isDigit d = true := by
  obtain ⟨d, digits, hdigits⟩ :=
    List.exists_cons_of_ne_nil (Nat.toDigits_ne_nil (b := 10) (n := n))
  have hd : d ∈ decimal n := by
    rw [decimal, hdigits]
    exact List.mem_cons_self
  exact ⟨d, digits, hdigits, isDigit_of_mem_decimal hd⟩

theorem parse?_decimal (n : Nat) {rest : List Char} (h : EndsNumeral rest) :
    Numeral.parse? (decimal n ++ rest) = some (⟨false, decimal n, none, none⟩, rest) := by
  have hsign : ∀ more, decimal n ++ rest ≠ '-' :: more := by
    intro more hminus
    obtain ⟨d, digits, hdigits, hd⟩ := exists_decimal n
    rw [hdigits] at hminus
    rw [(List.cons.inj hminus).1] at hd
    cases hd
  have hwhole := wholePart?_decimal n h
  unfold Numeral.parse?
  split
  next negative unsigned heq =>
    split at heq
    · next more hminus => exact absurd hminus (hsign more)
    · cases heq
      simp [hwhole, fractionPart?_of_ends h, exponentPart?_of_ends h]

theorem parse?_minus_decimal (n : Nat) {rest : List Char} (h : EndsNumeral rest) :
    Numeral.parse? ('-' :: (decimal n ++ rest)) = some (⟨true, decimal n, none, none⟩, rest) := by
  simp [Numeral.parse?, wholePart?_decimal n h, fractionPart?_of_ends h, exponentPart?_of_ends h]

/-- An integer that fits a word is read back from its digits. -/
theorem numeral_decimalInt {n : Int} (hlow : -(twoTo 63 : Int) ≤ n) (hhigh : n < twoTo 64)
    {rest : List Char} (h : EndsNumeral rest) :
    ∃ numeral, Numeral.parse? (decimalInt n ++ rest) = some (numeral, rest) ∧
      numeral.value? = some (.int n) := by
  have hvalue : Nat.ofDigitChars 10 (decimal n.natAbs) 0 = n.natAbs := Nat.ofDigitChars_ten_toDigits
  have hwords : (twoTo 63 : Int) < twoTo 64 := by decide
  have hbound : Nat.ofDigitChars 10 (decimal n.natAbs) 0 < twoTo 64 := by omega
  have habsorb : absorb 0 (decimal n.natAbs) = (n.natAbs, 0) := by rw [absorb_eq hbound, hvalue]
  by_cases hneg : n < 0
  · refine ⟨⟨true, decimal n.natAbs, none, none⟩, ?_, ?_⟩
    · rw [decimalInt, if_pos hneg]
      exact parse?_minus_decimal _ h
    · have hsmall : ¬(n.natAbs = 0 ∨ twoTo 63 < n.natAbs) := by omega
      have hsame : -(n.natAbs : Int) = n := by omega
      simp only [Numeral.value?, habsorb, and_self, if_true, Bool.not_true, Bool.false_eq_true,
        if_false, if_neg hsmall, hsame]
  · refine ⟨⟨false, decimal n.natAbs, none, none⟩, ?_, ?_⟩
    · rw [decimalInt, if_neg hneg]
      exact parse?_decimal _ h
    · have hsame : (n.natAbs : Int) = n := by omega
      simp only [Numeral.value?, habsorb, and_self, if_true, Bool.not_false, hsame]

/-! ## The compact text -/

/-- The printer spells each character in one of its ways. -/
theorem spellsChar_escapeChar (c : Char) : SpellsChar c (escapeChar c) := by
  unfold escapeChar
  split_ifs with hquote hbackslash hnewline hreturn htab hback hfeed hlow
  · exact .short (by simp [hquote, shortEscapes])
  · exact .short (by simp [hbackslash, shortEscapes])
  · exact .short (by simp [hnewline, shortEscapes])
  · exact .short (by simp [hreturn, shortEscapes])
  · exact .short (by simp [htab, shortEscapes])
  · have hc : c = Char.ofNat 8 := by rw [← hback, Char.ofNat_toNat]
    exact .short (by simp [hc, shortEscapes])
  · have hc : c = Char.ofNat 12 := by rw [← hfeed, Char.ofNat_toNat]
    exact .short (by simp [hc, shortEscapes])
  · have hlength := length_paddedHexadecimal (n := c.toNat) (by omega)
    have hnumeral := numeralFrom_paddedHexadecimal 4 c.toNat
    obtain ⟨d₃, d₂, d₁, d₀, hdigits⟩ := List.length_eq_four.mp hlength
    rw [hdigits] at hnumeral ⊢
    exact .unit hnumeral
  · exact .plain (by omega) hquote hbackslash

theorem spellsChars_escaped (cs : List Char) : SpellsChars cs (cs.flatMap escapeChar) := by
  induction cs with
  | nil => rfl
  | cons c cs ih => exact ⟨_, _, List.flatMap_cons, spellsChar_escapeChar c, ih⟩

theorem spellsString_encodeString (s : String) : SpellsString s (encodeString s.toList) :=
  ⟨_, rfl, spellsChars_escaped s.toList⟩

theorem Padded.of_kind {kind : List Char → Prop} {text : List Char} (h : kind text) :
    Padded kind text :=
  ⟨[], text, [], by simp, by simp [AreBlank], h, by simp [AreBlank]⟩

mutual

/-- The compact text of a value is one of its spellings. -/
theorem spells_encode : ∀ {j : Json}, j.IsExact → j.Spells j.encode
  | .null, _ => .of_kind rfl
  | .bool true, _ => .of_kind rfl
  | .bool false, _ => .of_kind rfl
  | .int _, _ => .of_kind rfl
  | .float _, h => h.elim
  | .str s, _ => .of_kind (spellsString_encodeString s)
  | .arr _, h => .of_kind ⟨_, rfl, spellsItems_encodeItems h⟩
  | .obj _, h => .of_kind ⟨_, rfl, spellsFields_encodeFields h.2⟩

theorem spellsItems_encodeItems :
    ∀ {items : List Json}, AreExact items → SpellsItems items (encodeItems items)
  | [], _ => fun _ hc => nomatch hc
  | [_], h => spells_encode h.1
  | _ :: _ :: _, h => ⟨_, _, rfl, spells_encode h.1, spellsItems_encodeItems h.2⟩

theorem spellsFields_encodeFields :
    ∀ {fields : List (String × Json)}, HasExactFields fields →
      SpellsFields fields (encodeFields fields)
  | [], _ => fun _ hc => nomatch hc
  | [(key, _)], h => ⟨_, _, rfl, .of_kind (spellsString_encodeString key), spells_encode h.1⟩
  | (key, _) :: _ :: _, h =>
    ⟨_, _, _, List.append_assoc _ _ _, .of_kind (spellsString_encodeString key), spells_encode h.1,
      spellsFields_encodeFields h.2⟩

end

end LinkedApi.Json
