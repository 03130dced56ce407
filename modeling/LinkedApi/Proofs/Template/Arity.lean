import LinkedApi.Proofs.Template.Substitution

/-!
# How many slots a template needs

With code in its slots a template is filled exactly when there is a slot for each of its markers.
Otherwise the first marker of the text that has none is reported. The count of the slots that are
needed says which of the two it is, wherever there is a count: for a template with the marker of the
largest number there is none, since one more than that number has more than 64 bits.
-/

namespace LinkedApi.Template

open Text

variable {source : List Char} {pieces : List Piece} {parts : List Part}

/-- The largest number that a marker can have. -/
def lastIndex : Nat := twoTo 64 - 1

/-- The number of the first marker in a text for which there is no slot among so many. -/
def FirstMissing (source : List Char) (slots index : Nat) : Prop :=
  ∃ before digits after,
    HasParts source (split [] source) (before ++ .marker digits :: after) ∧
      Nat.ofDigitChars 10 digits 0 = index ∧ slots ≤ index ∧
      ∀ other, .marker other ∈ before → Nat.ofDigitChars 10 other 0 < slots

/-! ## Counting -/

/-- A marker has a number of at most 64 bits. -/
theorem lt_twoTo_of_mem_split {before cs : List Char} {index : Nat}
    (h : .marker index ∈ split before cs) : index < twoTo 64 := by
  have htext (chars : List Char) : .marker index ∉ textPiece chars := by
    unfold textPiece
    split <;> simp
  fun_induction split before cs with
  | case1 before => exact absurd h (htext _)
  | case2 before cs found after hclosed ih =>
    obtain ⟨digits, hindex, -⟩ := closedNumber?_eq_some_iff.mp hclosed
    rcases List.mem_append.mp h with h | h
    · exact absurd h (htext _)
    · rcases List.mem_cons.mp h with h | h
      · cases h
        exact hindex.bound
      · exact ih h
  | case3 before cs hclosed ih => exact ih h
  | case4 before c cs hpair ih => exact ih h

theorem slotsFor?_eq_some_iff {index count : Nat} :
    slotsFor? index = some count ↔ index + 1 < twoTo 64 ∧ index + 1 = count := by
  rw [slotsFor?]
  split <;> simp_all

/-- The slots of some pieces can be counted exactly when those of each marker can. -/
theorem exists_arityOf?_iff :
    (∃ count, arityOf? pieces = some count) ↔
      ∀ index, .marker index ∈ pieces → index + 1 < twoTo 64 := by
  induction pieces with
  | nil => simp [arityOf?]
  | cons piece rest ih =>
    cases piece with
    | text chars => simpa [arityOf?] using ih
    | marker index =>
      simp only [arityOf?, Option.bind_eq_bind, Option.bind_eq_some_iff, slotsFor?_eq_some_iff,
        List.mem_cons, Piece.marker.injEq, forall_eq_or_imp, ← ih]
      constructor
      · rintro ⟨_, _, ⟨hindex, -⟩, more, hmore, -⟩
        exact ⟨hindex, more, hmore⟩
      · rintro ⟨hindex, more, hmore⟩
        exact ⟨_, _, ⟨hindex, rfl⟩, more, hmore, rfl⟩

/-- As many slots as are counted are enough for each marker, and fewer are not. -/
theorem arityOf?_le_iff {count slots : Nat} (h : arityOf? pieces = some count) :
    count ≤ slots ↔ ∀ index, .marker index ∈ pieces → index < slots := by
  induction pieces generalizing count with
  | nil =>
    cases h
    simp
  | cons piece rest ih =>
    cases piece with
    | text chars => simpa using ih h
    | marker index =>
      simp only [arityOf?, Option.bind_eq_bind, Option.bind_eq_some_iff, slotsFor?_eq_some_iff] at h
      obtain ⟨_, ⟨-, rfl⟩, more, hmore, hcount⟩ := h
      cases hcount
      rw [Nat.max_le, ih hmore, Nat.succ_le_iff]
      simp

/-- The marker of the largest number is the only one whose slots cannot be counted. -/
theorem arity?_eq_none_iff (source : String) :
    (ofText source).arity? = none ↔ .marker lastIndex ∈ (ofText source).pieces := by
  have hbound : ∀ index, .marker index ∈ (ofText source).pieces →
      (index + 1 < twoTo 64 ↔ index ≠ lastIndex) := by
    intro index hindex
    have hlt : index < twoTo 64 := lt_twoTo_of_mem_split hindex
    have hpos : 0 < twoTo 64 := by decide
    rw [lastIndex]
    omega
  rw [Option.eq_none_iff_forall_ne_some, ← not_exists, arity?, exists_arityOf?_iff,
    forall₂_congr hbound, not_iff_comm]
  constructor
  · exact fun hlast index hindex hsame => hlast (hsame ▸ hindex)
  · exact fun hall hlast => hall lastIndex hlast rfl

/-! ## Filling -/

/-- The parts before the first marker that has no slot. -/
theorem exists_first_missing {slots : Nat}
    (h : ¬∀ index, .marker index ∈ parts.map Part.piece → index < slots) :
    ∃ before digits after, parts = before ++ .marker digits :: after ∧
      slots ≤ Nat.ofDigitChars 10 digits 0 ∧
      ∀ other, .marker other ∈ before → Nat.ofDigitChars 10 other 0 < slots := by
  induction parts with
  | nil => simp at h
  | cons part rest ih =>
    by_cases hpart : ∀ digits, part = .marker digits → Nat.ofDigitChars 10 digits 0 < slots
    · have hrest : ¬∀ index, .marker index ∈ rest.map Part.piece → index < slots := by
        refine fun hall => h fun index hindex => ?_
        rcases List.mem_cons.mp hindex with hfirst | hmore
        · cases part with
          | text chars => cases hfirst
          | marker digits =>
            cases hfirst
            exact hpart digits rfl
        · exact hall index hmore
      obtain ⟨before, digits, after, rfl, hmissing, hbefore⟩ := ih hrest
      refine ⟨part :: before, digits, after, rfl, hmissing, fun other hother => ?_⟩
      rcases List.mem_cons.mp hother with hfirst | hmore
      · exact hpart other hfirst.symm
      · exact hbefore other hmore
    · rw [not_forall] at hpart
      obtain ⟨digits, hpart⟩ := hpart
      rw [Classical.not_imp, Nat.not_lt] at hpart
      obtain ⟨rfl, hmissing⟩ := hpart
      exact ⟨[], digits, rest, rfl, hmissing, by simp⟩

/-- The first marker that has no slot is reported. -/
theorem fill_missing {texts : List String} {before after : List Part} {digits : List Char}
    (hbefore : ∀ other, .marker other ∈ before → Nat.ofDigitChars 10 other 0 < texts.length)
    (hmissing : texts.length ≤ Nat.ofDigitChars 10 digits 0) :
    fill (texts.map .raw) ((before ++ .marker digits :: after).map Part.piece) =
      .error (.missingArgument (Nat.ofDigitChars 10 digits 0) texts.length) := by
  have hfilled : ∀ index, .marker index ∈ before.map Part.piece → index < texts.length := by
    intro index hindex
    obtain ⟨part, hpart, hpiece⟩ := List.mem_map.mp hindex
    cases part with
    | text chars => cases hpiece
    | marker other =>
      cases hpiece
      exact hbefore other hpart
  have hwritten : written (texts.map .raw) (Nat.ofDigitChars 10 digits 0) =
      .error (.missingArgument (Nat.ofDigitChars 10 digits 0) texts.length) := by
    have hnone : (texts.map Slot.raw)[Nat.ofDigitChars 10 digits 0]? = none :=
      List.getElem?_eq_none (by simpa using hmissing)
    rw [written, hnone, List.length_map]
  rw [List.map_append, List.map_cons, Part.piece, fill_append, fill_raw hfilled, fill_marker,
    hwritten]
  rfl

/-- With code in its slots a template is filled, or its first marker without a slot is reported. -/
theorem render_raw (source : String) (texts : List String) :
    ((∀ index, .marker index ∈ (ofText source).pieces → index < texts.length) ∧
        ∃ text, (ofText source).render (texts.map .raw) = .ok text) ∨
      ∃ index, .marker index ∈ (ofText source).pieces ∧
        FirstMissing source.toList texts.length index ∧
        (ofText source).render (texts.map .raw) =
          .error (.missingArgument index texts.length) := by
  obtain ⟨parts, hparts⟩ := exists_hasParts [] source.toList
  have hread : parts.map Part.piece = (ofText source).pieces := hparts.read
  rw [render, ← hread]
  by_cases henough : ∀ index, .marker index ∈ parts.map Part.piece → index < texts.length
  · exact .inl ⟨henough, _, by rw [fill_raw henough]; rfl⟩
  · obtain ⟨before, digits, after, rfl, hmissing, hbefore⟩ := exists_first_missing henough
    refine .inr ⟨Nat.ofDigitChars 10 digits 0, by simp [Part.piece],
      ⟨before, digits, after, hparts, rfl, hmissing, hbefore⟩, ?_⟩
    rw [fill_missing hbefore hmissing]
    rfl

/-! ## The count -/

/-- There is a count of slots that says of every list of code whether it fills the template: as many
are enough, and with fewer the first marker of the text that has none is reported. -/
def HasExactArity (source : String) : Prop :=
  ∃ count, (ofText source).arity? = some count ∧
    ∀ texts : List String,
      (count ≤ texts.length → ∃ text, (ofText source).render (texts.map .raw) = .ok text) ∧
      (texts.length < count →
        ∃ index, FirstMissing source.toList texts.length index ∧
          (ofText source).render (texts.map .raw) = .error (.missingArgument index texts.length))

/-- A count is exact wherever there is one. -/
theorem hasExactArity_of_some {source : String} {count : Nat}
    (h : (ofText source).arity? = some count) : HasExactArity source := by
  refine ⟨count, h, fun texts => ?_⟩
  have hcount := @arityOf?_le_iff _ count texts.length h
  rcases render_raw source texts with ⟨henough, hfilled⟩ | ⟨index, hindex, hmissing, herror⟩
  · exact ⟨fun _ => hfilled, fun hfew => absurd (hcount.mpr henough) (Nat.not_le.mpr hfew)⟩
  · refine ⟨fun hmany => ?_, fun _ => ⟨index, hmissing, herror⟩⟩
    obtain ⟨_, _, _, _, _, hle, -⟩ := hmissing
    exact absurd (hcount.mp hmany index hindex) (Nat.not_lt.mpr hle)

/-- There is a count of the slots that a template needs, and it is exact, unless a marker has the
largest number; where one has, there is no count. In both cases a template is filled when each
marker has a slot, and otherwise the first one that has none is reported. -/
theorem arity_exact_unless_last (source : String) :
    (HasExactArity source ↔ .marker lastIndex ∉ (ofText source).pieces) ∧
    ((ofText source).arity? = none ↔ .marker lastIndex ∈ (ofText source).pieces) ∧
    ∀ texts : List String,
      ((∀ index, .marker index ∈ (ofText source).pieces → index < texts.length) ∧
          ∃ text, (ofText source).render (texts.map .raw) = .ok text) ∨
        ∃ index, FirstMissing source.toList texts.length index ∧
          (ofText source).render (texts.map .raw) =
            .error (.missingArgument index texts.length) := by
  refine ⟨⟨?_, fun hlast => ?_⟩, arity?_eq_none_iff source, fun texts => ?_⟩
  · rintro ⟨count, hcount, -⟩ hlast
    rw [(arity?_eq_none_iff source).mpr hlast] at hcount
    cases hcount
  · obtain ⟨count, hcount⟩ :=
      Option.ne_none_iff_exists'.mp (mt (arity?_eq_none_iff source).mp hlast)
    exact hasExactArity_of_some hcount
  · rcases render_raw source texts with hfilled | ⟨index, -, hmissing⟩
    · exact .inl hfilled
    · exact .inr ⟨index, hmissing⟩

/-- The slots for the marker of the largest number cannot be counted, though without a slot the
template is refused as any other. -/
theorem arity_of_last_wrong :
    let source := String.ofList (markerText (decimal lastIndex))
    (ofText source).arity? = none ∧
      (ofText source).render [] = .error (.missingArgument lastIndex 0) ∧
      ¬HasExactArity source := by
  have harity : (ofText (String.ofList (markerText (decimal lastIndex)))).arity? = none := by
    decide +kernel
  have hrender : (ofText (String.ofList (markerText (decimal lastIndex)))).render [] =
      .error (.missingArgument lastIndex 0) := by
    decide +kernel
  refine ⟨harity, hrender, ?_⟩
  rintro ⟨count, hcount, -⟩
  rw [harity] at hcount
  cases hcount

end LinkedApi.Template
