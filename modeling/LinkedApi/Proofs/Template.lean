import LinkedApi.Proofs.Text.Digits
import LinkedApi.Template

/-!
# Reading templates back

Double braces open a marker when digits of a number with at most 64 bits follow, and double braces
after them. The pieces of a template are found again in the text that they are written as, if no
text among them can be taken for the beginning of a marker. The templates of the generated code are
read this way.
-/

namespace LinkedApi.Template

open Text

/-- Whether no marker can begin in a text, nor at its end together with what follows it. -/
def isPlain : List Char → Bool
  | [] => true
  | c :: rest => (c ≠ '{' || rest.head?.any (· ≠ '{')) && isPlain rest

def Piece.source : Piece → List Char
  | .text chars => chars
  | .marker index => '{' :: '{' :: (Text.decimal index ++ ['}', '}'])

/-- Texts are plain and stand apart from each other, and markers have one digit. -/
def areReadable : List Piece → Bool
  | [] => true
  | [.text chars] => isPlain chars && !chars.isEmpty
  | .text chars :: .marker index :: rest =>
    isPlain chars && !chars.isEmpty && areReadable (.marker index :: rest)
  | .text _ :: .text _ :: _ => false
  | .marker index :: rest => index < 10 && areReadable rest

/-! ## Markers -/

/-- Digits of a number that has at most 64 bits. -/
structure IsIndex (digits : List Char) (index : Nat) : Prop where
  ne_nil : digits ≠ []
  digit : ∀ c ∈ digits, isDigit c = true
  value : Nat.ofDigitChars 10 digits 0 = index
  bound : index < twoTo 64

def markerText (digits : List Char) : List Char := '{' :: '{' :: (digits ++ ['}', '}'])

/-- A marker ends with digits that fit 64 bits and two braces. -/
theorem closedNumber?_eq_some_iff {cs after : List Char} {index : Nat} :
    closedNumber? cs = some (index, after) ↔
      ∃ digits, IsIndex digits index ∧ cs = digits ++ '}' :: '}' :: after := by
  constructor
  · intro h
    unfold closedNumber? at h
    split at h
    · next tail hdrop =>
      have hcs : cs = cs.takeWhile isDigit ++ '}' :: '}' :: tail := by
        rw [← hdrop, List.takeWhile_append_dropWhile]
      split at h
      · next index hnumeral =>
        obtain ⟨hne, hdigit, hvalue⟩ := numeral?_eq_some_iff.mp hnumeral
        split at h
        · next hbound =>
          cases h
          exact ⟨_, ⟨hne, hdigit, hvalue, hbound⟩, hcs⟩
        · cases h
      · cases h
    · cases h
  · rintro ⟨digits, hindex, rfl⟩
    have hnumeral : numeral? 10 digits = some index :=
      numeral?_eq_some_iff.mpr ⟨hindex.ne_nil, hindex.digit, hindex.value⟩
    have htake : (digits ++ '}' :: '}' :: after).takeWhile isDigit = digits := by
      rw [List.takeWhile_append_of_pos hindex.digit, List.takeWhile_cons_of_neg (by decide),
        List.append_nil]
    have hdrop : (digits ++ '}' :: '}' :: after).dropWhile isDigit = '}' :: '}' :: after := by
      rw [List.dropWhile_append_of_pos hindex.digit, List.dropWhile_cons_of_neg (by decide)]
    rw [closedNumber?, hdrop, htake, hnumeral]
    exact if_pos hindex.bound

theorem split_open_marker {digits : List Char} {index : Nat} (h : IsIndex digits index)
    (before after : List Char) :
    split before (markerText digits ++ after) =
      textPiece before.reverse ++ .marker index :: split [] after := by
  have hclosed : closedNumber? (digits ++ '}' :: '}' :: after) = some (index, after) :=
    closedNumber?_eq_some_iff.mpr ⟨digits, h, rfl⟩
  simp only [markerText, List.cons_append, List.append_assoc, List.nil_append]
  rw [split]
  split <;> simp_all

theorem IsIndex.of_decimal {index : Nat} (h : index < twoTo 64) : IsIndex (decimal index) index where
  ne_nil := Nat.toDigits_ne_nil
  digit _ := isDigit_of_mem_decimal
  value := Nat.ofDigitChars_ten_toDigits
  bound := h

theorem lt_twoTo_of_digit {index : Nat} (h : index < 10) : index < twoTo 64 :=
  Nat.lt_of_lt_of_le h (by decide)

theorem split_marker {index : Nat} (h : index < twoTo 64) (before rest : List Char) :
    split before ((Piece.marker index).source ++ rest) =
      textPiece before.reverse ++ .marker index :: split [] rest :=
  split_open_marker (.of_decimal h) before rest

/-! ## Pieces -/

theorem split_plain {text : List Char} (h : isPlain text) (before rest : List Char) :
    split before (text ++ rest) = split (text.reverse ++ before) rest := by
  induction text generalizing before with
  | nil => rfl
  | cons c text ih =>
    simp only [isPlain, Bool.and_eq_true] at h
    have hskip : split before (c :: (text ++ rest)) = split (c :: before) (text ++ rest) := by
      rw [split]
      rintro tail rfl hcons
      cases text with
      | nil => simp at h
      | cons d text => simp_all
    rw [List.cons_append, hskip, ih h.2]
    simp

@[simp]
theorem textPiece_nil : textPiece [] = [] := rfl

theorem textPiece_of_ne_nil {chars : List Char} (h : chars ≠ []) :
    textPiece chars = [.text chars] := by
  simp [textPiece, h]

/-- A readable template is split into the pieces that it was written from. -/
theorem split_source {pieces : List Piece} (h : areReadable pieces) :
    split [] (pieces.flatMap Piece.source) = pieces := by
  induction pieces using areReadable.induct with
  | case1 => simp [split, textPiece]
  | case2 chars =>
    simp only [areReadable, Bool.and_eq_true, Bool.not_eq_true', List.isEmpty_eq_false_iff] at h
    have hread := split_plain h.1 [] []
    simp only [List.append_nil] at hread
    simp [Piece.source, hread, split, textPiece_of_ne_nil h.2]
  | case3 chars index rest ih =>
    simp only [areReadable, Bool.and_eq_true, Bool.not_eq_true', List.isEmpty_eq_false_iff,
      decide_eq_true_eq] at h
    obtain ⟨⟨hplain, hne⟩, hindex, hrest⟩ := h
    have hbound := lt_twoTo_of_digit hindex
    have htail := ih (by simp [areReadable, hindex, hrest])
    rw [List.flatMap_cons, split_marker hbound] at htail
    rw [List.flatMap_cons, Piece.source, split_plain hplain, List.flatMap_cons,
      split_marker hbound]
    simpa [textPiece_of_ne_nil hne, textPiece_nil] using htail
  | case4 => simp [areReadable] at h
  | case5 index rest ih =>
    simp only [areReadable, Bool.and_eq_true, decide_eq_true_eq] at h
    rw [List.flatMap_cons, split_marker (lt_twoTo_of_digit h.1), ih h.2]
    rfl

/-- A template whose source is that of some pieces has these pieces. -/
theorem pieces_ofText {source : String} {pieces : List Piece}
    (h : source.toList = pieces.flatMap Piece.source ∧ areReadable pieces) :
    (ofText source).pieces = pieces := by
  rw [ofText, h.1, split_source h.2]

/-! ## Filling -/

def filling (slots : List Slot) (pieces : List Piece) : Except TemplateError String :=
  (fill slots pieces).map String.ofList

theorem render_eq (t : Template) (slots : List Slot) : t.render slots = filling slots t.pieces := rfl

@[simp]
theorem filling_end (slots : List Slot) (text : String) :
    filling slots [.text text.toList] = .ok text := by
  simp only [filling, fill, bind, Except.bind, pure, Except.pure, Except.map, List.append_nil,
    String.ofList_toList]

@[simp]
theorem filling_text (slots : List Slot) (text : String) (rest : List Piece) :
    filling slots (.text text.toList :: rest) = (filling slots rest).map (text ++ ·) := by
  simp only [filling, fill, bind, Except.bind, pure, Except.pure]
  cases fill slots rest with
  | error cause => rfl
  | ok chars => simp only [Except.map, String.ofList_append, String.ofList_toList]

theorem filling_marker {slots : List Slot} {index : Nat} {slot : Slot} {text : String}
    (hslot : slots[index]? = some slot) (hwrite : slot.write = .ok text.toList)
    (rest : List Piece) :
    filling slots (.marker index :: rest) = (filling slots rest).map (text ++ ·) := by
  simp only [filling, fill, hslot, hwrite, bind, Except.bind, pure, Except.pure]
  cases fill slots rest with
  | error cause => rfl
  | ok chars => simp only [Except.map, String.ofList_append, String.ofList_toList]

theorem filling_marker_error {slots : List Slot} {index : Nat} {slot : Slot}
    {cause : TemplateError} (hslot : slots[index]? = some slot)
    (hwrite : slot.write = .error cause) (rest : List Piece) :
    filling slots (.marker index :: rest) = .error cause := by
  simp only [filling, fill, hslot, hwrite, bind, Except.bind, pure, Except.pure, Except.map]

end LinkedApi.Template

namespace LinkedApi

def Text.literalOf (text : String) : String := String.ofList (literal text.toList)

namespace Slot

@[simp]
theorem write_str (text : String) : (Slot.str text).write = .ok (Text.literalOf text).toList := by
  simp [write, Text.literalOf]

@[simp]
theorem write_json (value : Json) : (Slot.json value).write = .ok value.compress.toList := rfl

@[simp]
theorem write_raw (code : String) : (Slot.raw code).write = .ok code.toList := rfl

theorem write_ident {name : String} (h : Text.isIdentifier name) :
    (Slot.ident name).write = .ok name.toList := by
  simp [write, h]

theorem write_ident_error {name : String} (h : Text.isIdentifier name = false) :
    (Slot.ident name).write = .error (.invalidIdentifier name) := by
  simp [write, h]

end Slot

end LinkedApi
