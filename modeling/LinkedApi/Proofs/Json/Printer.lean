import LinkedApi.Json.Printer
import LinkedApi.Proofs.Text.Digits
import LinkedApi.Proofs.Text.Lines

/-!
# Line terminators in JSON

The compact text of a value has no line breaks: in strings they are escaped, and nothing else of the
text is one. The two Unicode line separators are not escaped. They stand in the text exactly as
often, and in the same order, as in the strings of the value.
-/

namespace LinkedApi.Json

open Text

/-! ## Numbers -/

theorem isLineTerminator_of_isDigit {c : Char} (h : isDigit c = true) :
    isLineTerminator c = false := by
  have hle : c.toNat ≤ 57 := (isDigit_iff.mp h).2
  have hseparator : isLineSeparator c = false := by
    simp only [isLineSeparator, Bool.or_eq_false_iff, decide_eq_false_iff_not]
    omega
  have hnewline : c ≠ '\n' := by rintro rfl; cases h
  have hreturn : c ≠ '\r' := by rintro rfl; cases h
  simp [isLineTerminator, hseparator, hnewline, hreturn]

theorem isLineTerminator_decimal (n : Nat) : ∀ c ∈ decimal n, isLineTerminator c = false :=
  fun _ hc => isLineTerminator_of_isDigit (isDigit_of_mem_decimal hc)

theorem isLineTerminator_decimalInt (n : Int) : ∀ c ∈ decimalInt n, isLineTerminator c = false := by
  unfold decimalInt
  split
  · exact List.forall_mem_cons.mpr ⟨by decide, isLineTerminator_decimal _⟩
  · exact isLineTerminator_decimal _

theorem isLineTerminator_placed {digits : List Char}
    (h : ∀ c ∈ digits, isLineTerminator c = false) (point : Int) :
    ∀ c ∈ placed digits point, isLineTerminator c = false := by
  have hzeros (n : Nat) : ∀ c ∈ List.replicate n '0', isLineTerminator c = false := by
    intro c hc
    rw [List.eq_of_mem_replicate hc]
    decide
  unfold placed
  split_ifs
  · simp only [List.forall_mem_append, List.forall_mem_cons]
    exact ⟨⟨by decide, by decide, hzeros _⟩, h⟩
  · simp only [List.forall_mem_append]
    exact ⟨⟨h, hzeros _⟩, isLineTerminator_of_any (by decide)⟩
  · simp only [List.forall_mem_append, List.forall_mem_cons]
    exact ⟨fun c hc => h c (List.mem_of_mem_take hc), by decide,
      fun c hc => h c (List.mem_of_mem_drop hc)⟩

theorem isLineTerminator_scientific {digits : List Char}
    (h : ∀ c ∈ digits, isLineTerminator c = false) (exponent : Int) :
    ∀ c ∈ scientific digits exponent, isLineTerminator c = false := by
  have hsign : isLineTerminator (if exponent < 0 then '-' else '+') = false := by split <;> decide
  unfold scientific
  dsimp only
  rw [List.forall_mem_append, List.forall_mem_cons, List.forall_mem_cons]
  refine ⟨?_, by decide, hsign, isLineTerminator_decimal exponent.natAbs⟩
  rcases digits with _ | ⟨d, _ | ⟨d', rest⟩⟩
  · exact h
  · exact h
  · rw [List.forall_mem_cons] at h ⊢
    exact ⟨h.1, List.forall_mem_cons.mpr ⟨by decide, h.2⟩⟩

/-- Numbers have no line terminators. -/
theorem isLineTerminator_encodeFinite (x : Binary64) :
    ∀ c ∈ encodeFinite x, isLineTerminator c = false := by
  have hsign : ∀ c ∈ if x.isNegative then ['-'] else [], isLineTerminator c = false := by
    split <;> exact isLineTerminator_of_any (by decide)
  have hdigits := isLineTerminator_decimal (Decimal.shortest x.magnitude.1 x.magnitude.2).digits
  unfold encodeFinite
  dsimp only
  generalize (if x.isNegative then ['-'] else []) = sign at hsign ⊢
  split
  · exact List.forall_mem_append.mpr ⟨hsign, isLineTerminator_of_any (by decide)⟩
  · split
    · exact List.forall_mem_append.mpr ⟨hsign, isLineTerminator_placed hdigits _⟩
    · exact List.forall_mem_append.mpr ⟨hsign, isLineTerminator_scientific hdigits _⟩

theorem isLineTerminator_encodeFloat (x : Binary64) :
    ∀ c ∈ encodeFloat x, isLineTerminator c = false := by
  unfold encodeFloat
  split
  · exact isLineTerminator_encodeFinite x
  · exact isLineTerminator_of_any (by decide)

/-! ## Strings -/

def lineSeparators (text : String) : List Char := text.toList.filter isLineSeparator

/-- Only line separators are written as line terminators. -/
@[simp]
theorem filter_escapeChar (c : Char) :
    (escapeChar c).filter isLineTerminator = [c].filter isLineSeparator := by
  have hcontrol (h : c.toNat < 32) : [c].filter isLineSeparator = [] := by
    have hc : isLineSeparator c = false := by
      simp only [isLineSeparator, Bool.or_eq_false_iff, decide_eq_false_iff_not]
      omega
    simp [hc]
  unfold escapeChar
  split_ifs with hquote hbackslash hnewline hreturn htab hback hfeed hlow
  · rw [hquote]; rfl
  · rw [hbackslash]; rfl
  · rw [hnewline]; rfl
  · rw [hreturn]; rfl
  · rw [htab]; rfl
  · rw [hcontrol (by omega)]; rfl
  · rw [hcontrol (by omega)]; rfl
  · have hdigits := List.filter_eq_nil_iff.mpr fun x hx =>
      Bool.eq_false_iff.mp (isLineTerminator_paddedHexadecimal 4 c.toNat x hx)
    rw [hcontrol hlow]
    exact hdigits
  · have hsame : isLineTerminator c = isLineSeparator c := by
      simp [isLineTerminator, hnewline, hreturn]
    simp [List.filter_cons, hsame]

/-- A string is written with its line separators as they are, and with no other line terminators. -/
@[simp]
theorem filter_encodeString (text : String) :
    (encodeString text.toList).filter isLineTerminator = lineSeparators text := by
  have hquote : isLineTerminator '"' = false := by decide
  have hbody (cs : List Char) :
      (cs.flatMap escapeChar).filter isLineTerminator = cs.filter isLineSeparator := by
    induction cs with
    | nil => rfl
    | cons c cs ih =>
      rw [List.flatMap_cons, List.filter_append, filter_escapeChar, ih, ← List.filter_append]
      rfl
  rw [encodeString, List.filter_append, List.filter_cons_of_neg (by simp [hquote]), hbody,
    List.filter_cons_of_neg (by simp [hquote]), List.filter_nil, List.append_nil, lineSeparators]

/-! ## Values -/

mutual

/-- The strings of a value in the order in which they are written, keys among them. -/
def strings : Json → List String
  | .str text => [text]
  | .arr items => stringsOfItems items
  | .obj fields => stringsOfFields fields
  | _ => []

def stringsOfItems : List Json → List String
  | [] => []
  | item :: rest => strings item ++ stringsOfItems rest

def stringsOfFields : List (String × Json) → List String
  | [] => []
  | (key, value) :: rest => key :: (strings value ++ stringsOfFields rest)

end

theorem filter_isLineTerminator {cs : List Char} (h : ∀ c ∈ cs, isLineTerminator c = false) :
    cs.filter isLineTerminator = [] :=
  List.filter_eq_nil_iff.mpr fun c hc => Bool.eq_false_iff.mp (h c hc)

/-- A character that ends no line does not count. -/
theorem filter_cons_plain {c : Char} (h : isLineTerminator c = false) (cs : List Char) :
    (c :: cs).filter isLineTerminator = cs.filter isLineTerminator :=
  List.filter_cons_of_neg (by simp [h])

mutual

/-- The line terminators of the text are the line separators of the strings. -/
theorem filter_encode : ∀ j : Json,
    (encode j).filter isLineTerminator = (strings j).flatMap lineSeparators
  | .null => rfl
  | .bool true => rfl
  | .bool false => rfl
  | .int n => filter_isLineTerminator (isLineTerminator_decimalInt n)
  | .float x => filter_isLineTerminator (isLineTerminator_encodeFloat x)
  | .str text => by
    rw [encode, filter_encodeString, strings, List.flatMap_singleton]
  | .arr items => by
    rw [encode, List.cons_append, filter_cons_plain (by decide), List.filter_append,
      filter_encodeItems items, filter_cons_plain (by decide), List.filter_nil, List.append_nil,
      strings]
  | .obj fields => by
    rw [encode, List.cons_append, filter_cons_plain (by decide), List.filter_append,
      filter_encodeFields fields, filter_cons_plain (by decide), List.filter_nil, List.append_nil,
      strings]

theorem filter_encodeItems : ∀ items : List Json,
    (encodeItems items).filter isLineTerminator = (stringsOfItems items).flatMap lineSeparators
  | [] => rfl
  | [item] => by
    rw [encodeItems, filter_encode item, stringsOfItems, stringsOfItems, List.append_nil]
  | item :: next :: rest => by
    rw [encodeItems, List.filter_append, filter_encode item, filter_cons_plain (by decide),
      filter_encodeItems (next :: rest), ← List.flatMap_append]
    rfl

theorem filter_encodeFields : ∀ fields : List (String × Json),
    (encodeFields fields).filter isLineTerminator = (stringsOfFields fields).flatMap lineSeparators
  | [] => rfl
  | [(key, value)] => by
    rw [encodeFields, List.filter_append, filter_encodeString, filter_cons_plain (by decide),
      filter_encode value, stringsOfFields, stringsOfFields, List.append_nil, List.flatMap_cons]
  | (key, value) :: next :: rest => by
    rw [encodeFields, List.append_assoc, List.cons_append, List.filter_append, filter_encodeString,
      filter_cons_plain (by decide), List.filter_append, filter_encode value,
      filter_cons_plain (by decide), filter_encodeFields (next :: rest), ← List.flatMap_append,
      ← List.flatMap_cons]
    rfl

end

/-- The line terminators of the text are the line separators of the strings. -/
@[simp]
theorem filter_compress (j : Json) :
    j.compress.toList.filter isLineTerminator = j.strings.flatMap lineSeparators := by
  rw [compress, String.toList_ofList, filter_encode]

theorem isLineSeparator_of_mem_compress {j : Json} {c : Char} (h : c ∈ j.compress.toList)
    (hc : isLineTerminator c = true) : isLineSeparator c = true := by
  have hfilter := List.mem_filter.mpr ⟨h, hc⟩
  rw [filter_compress] at hfilter
  obtain ⟨text, -, hmem⟩ := List.mem_flatMap.mp hfilter
  exact (List.mem_filter.mp hmem).2

/-- JSON text stands in one line. -/
theorem newline_not_mem_compress (j : Json) : '\n' ∉ j.compress.toList :=
  fun h => absurd (isLineSeparator_of_mem_compress h rfl) (by decide)

end LinkedApi.Json
