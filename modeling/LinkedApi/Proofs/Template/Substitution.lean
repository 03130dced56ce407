import LinkedApi.Proofs.Template.Markers

/-!
# Substitution in templates

The parts of a template are its pieces as they are written. They join to the whole template, so that
reading it loses nothing, and they are determined by it. With code in all slots each part is written
as it is, or replaced by the code of its slot as it is, so that nothing in the code is read again.
Slots that hold the markers themselves give the template back, unless a marker has leading zeros.
-/

namespace LinkedApi

open Text

namespace Template

/-- A piece of a template as it is written. -/
inductive Part where
  | text (chars : List Char)
  | marker (digits : List Char)
  deriving DecidableEq

namespace Part

def source : Part → List Char
  | .text chars => chars
  | .marker digits => markerText digits

def piece : Part → Piece
  | .text chars => .text chars
  | .marker digits => .marker (Nat.ofDigitChars 10 digits 0)

def canonical : Part → Part
  | .text chars => .text chars
  | .marker digits => .marker (decimal (Nat.ofDigitChars 10 digits 0))

/-- What stands for a part when the markers are replaced by these texts. -/
def replaced (texts : List String) : Part → List Char
  | .text chars => chars
  | .marker digits => (texts[Nat.ofDigitChars 10 digits 0]?.getD "").toList

def HasDigits : Part → Prop
  | .text _ => True
  | .marker digits => digits ≠ [] ∧ ∀ c ∈ digits, isDigit c = true

end Part

/-- The parts that a template is read as. -/
structure HasParts (source : List Char) (pieces : List Piece) (parts : List Part) : Prop where
  joined : parts.flatMap Part.source = source
  read : parts.map Part.piece = pieces
  digits : ∀ part ∈ parts, part.HasDigits

def ownMarkers (count : Nat) : List String :=
  (List.range count).map fun index => String.ofList (markerText (decimal index))

/-! ## Reading loses nothing -/

def textPart (chars : List Char) : List Part := if chars.isEmpty then [] else [.text chars]

theorem hasParts_textPart (chars : List Char) : HasParts chars (textPiece chars) (textPart chars) := by
  unfold textPiece textPart
  split
  · next hempty => exact ⟨(List.isEmpty_iff.mp hempty).symm, rfl, by simp⟩
  · exact ⟨by simp [Part.source], rfl, by simp [Part.HasDigits]⟩

theorem HasParts.append {source more : List Char} {pieces rest : List Piece} {one other : List Part}
    (hone : HasParts source pieces one) (hother : HasParts more rest other) :
    HasParts (source ++ more) (pieces ++ rest) (one ++ other) := by
  refine ⟨?_, ?_, List.forall_mem_append.mpr ⟨hone.digits, hother.digits⟩⟩
  · rw [List.flatMap_append, hone.joined, hother.joined]
  · rw [List.map_append, hone.read, hother.read]

theorem IsIndex.hasParts {digits : List Char} {index : Nat} (h : IsIndex digits index) :
    HasParts (markerText digits) [.marker index] [.marker digits] := by
  refine ⟨by simp [Part.source], by simp [Part.piece, h.value], ?_⟩
  exact List.forall_mem_singleton.mpr ⟨h.ne_nil, h.digit⟩

/-- Every text is made of parts. -/
theorem exists_hasParts (before cs : List Char) :
    ∃ parts, HasParts (before.reverse ++ cs) (split before cs) parts := by
  fun_induction split before cs with
  | case1 before => exact ⟨_, by simpa using hasParts_textPart before.reverse⟩
  | case2 before cs index after hclosed ih =>
    obtain ⟨digits, hindex, rfl⟩ := closedNumber?_eq_some_iff.mp hclosed
    obtain ⟨parts, hparts⟩ := ih
    have hall := (hasParts_textPart before.reverse).append (hindex.hasParts.append hparts)
    exact ⟨_, by simpa [markerText] using hall⟩
  | case3 before cs hclosed ih => simpa using ih
  | case4 before c cs hpair ih => simpa using ih

/-! ## Parts are determined -/

theorem markerText_append_inj {digits other rest more : List Char}
    (hdigits : ∀ c ∈ digits, isDigit c = true) (hother : ∀ c ∈ other, isDigit c = true)
    (h : markerText digits ++ rest = markerText other ++ more) : digits = other ∧ rest = more := by
  simp only [markerText, List.cons_append, List.append_assoc, List.nil_append, List.cons.injEq,
    true_and] at h
  have hfree : ∀ c ∈ digits, (!isDigit c) = false := by simpa using hdigits
  have hfree' : ∀ c ∈ other, (!isDigit c) = false := by simpa using hother
  obtain ⟨hsame, -, hrest⟩ := append_cons_inj_of_kind hfree hfree' (by decide) (by decide) h
  exact ⟨hsame, by simpa using hrest⟩

theorem Part.source_append_inj {part next : Part} {rest more : List Char} (hpart : part.HasDigits)
    (hnext : next.HasDigits) (hpiece : part.piece = next.piece)
    (h : part.source ++ rest = next.source ++ more) : part = next ∧ rest = more := by
  cases part with
  | text chars =>
    cases next with
    | text other =>
      obtain rfl : chars = other := by simpa [piece] using hpiece
      exact ⟨rfl, List.append_cancel_left h⟩
    | marker other => cases hpiece
  | marker digits =>
    cases next with
    | text other => cases hpiece
    | marker other =>
      obtain ⟨rfl, hrest⟩ := markerText_append_inj hpart.2 hnext.2 h
      exact ⟨rfl, hrest⟩

/-- Parts that are read as the same pieces and join to the same text are the same. -/
theorem HasParts.unique {source : List Char} {pieces : List Piece} {one other : List Part}
    (hone : HasParts source pieces one) (hother : HasParts source pieces other) : other = one := by
  have hread := hother.read.trans hone.read.symm
  have hjoined := hother.joined.trans hone.joined.symm
  induction one generalizing source pieces other with
  | nil => simpa using hread
  | cons part one ih =>
    obtain ⟨next, other, rfl, hpiece, hpieces⟩ := List.map_eq_cons_iff.mp hread
    obtain ⟨hpart, hdigits⟩ := List.forall_mem_cons.mp hone.digits
    obtain ⟨hnext, hdigits'⟩ := List.forall_mem_cons.mp hother.digits
    rw [List.flatMap_cons, List.flatMap_cons] at hjoined
    obtain ⟨rfl, hrest⟩ := Part.source_append_inj hnext hpart hpiece hjoined
    rw [ih ⟨rfl, rfl, hdigits⟩ ⟨hrest, hpieces, hdigits'⟩ hpieces hrest]

/-! ## Code in all slots -/

theorem written_raw {texts : List String} {index : Nat} (h : index < texts.length) :
    written (texts.map .raw) index = .ok (texts[index]?.getD "").toList := by
  rw [written, List.getElem?_map, List.getElem?_eq_getElem h]
  rfl

/-- With code in all slots the parts are replaced all at once. -/
theorem fill_raw {texts : List String} {parts : List Part}
    (h : ∀ index, .marker index ∈ parts.map Part.piece → index < texts.length) :
    fill (texts.map .raw) (parts.map Part.piece) = .ok (parts.flatMap (Part.replaced texts)) := by
  induction parts with
  | nil => rfl
  | cons part parts ih =>
    rw [List.map_cons] at h ⊢
    have hrest := ih fun index hindex => h index (List.mem_cons_of_mem _ hindex)
    cases part with
    | text chars =>
      rw [Part.piece, fill, hrest]
      rfl
    | marker digits =>
      have hslot := h _ List.mem_cons_self
      rw [Part.piece, fill_marker, written_raw hslot, hrest]
      rfl

theorem replaced_ownMarkers {count : Nat} {part : Part}
    (h : ∀ index, part.piece = .marker index → index < count) :
    part.replaced (ownMarkers count) = part.canonical.source := by
  cases part with
  | text chars => rfl
  | marker digits =>
    have hlt := h _ rfl
    simp [Part.replaced, ownMarkers, Part.canonical, Part.source, hlt]

theorem flatMap_replaced_ownMarkers {count : Nat} {parts : List Part}
    (h : ∀ index, .marker index ∈ parts.map Part.piece → index < count) :
    parts.flatMap (Part.replaced (ownMarkers count)) =
      (parts.map Part.canonical).flatMap Part.source := by
  rw [List.flatMap_map]
  refine List.flatMap_congr fun part hpart => replaced_ownMarkers fun index hindex => h index ?_
  exact List.mem_map.mpr ⟨part, hpart, hindex⟩

/-! ## The usual way of writing -/

@[simp]
theorem Part.canonical_piece (part : Part) : part.canonical.piece = part.piece := by
  cases part with
  | text chars => rfl
  | marker digits => exact congrArg Piece.marker Nat.ofDigitChars_ten_toDigits

theorem Part.canonical_hasDigits (part : Part) : part.canonical.HasDigits := by
  cases part with
  | text chars => trivial
  | marker digits => exact ⟨Nat.toDigits_ne_nil, fun _ => isDigit_of_mem_decimal⟩

/-- A part is canonical unless its digits begin with a zero that is not all of them. -/
theorem Part.canonical_eq_iff {part : Part} (h : part.HasDigits) :
    part.canonical = part ↔ ∀ digits, part = .marker digits → HasNoLeadingZero digits := by
  cases part with
  | text chars => simp [canonical]
  | marker digits => simp [canonical, decimal_ofDigitChars_iff h.1 h.2]

theorem HasParts.canonical {source : List Char} {pieces : List Piece} {parts : List Part}
    (h : HasParts source pieces parts) :
    HasParts ((parts.map Part.canonical).flatMap Part.source) pieces (parts.map Part.canonical) := by
  refine ⟨rfl, ?_, ?_⟩
  · rw [List.map_map, ← h.read]
    exact List.map_congr_left fun part _ => part.canonical_piece
  · rintro part hpart
    obtain ⟨part, -, rfl⟩ := List.mem_map.mp hpart
    exact part.canonical_hasDigits

/-- Parts written in the usual way join to the same text exactly when no marker has a leading
zero. -/
theorem HasParts.canonical_joined_iff {source : List Char} {pieces : List Piece}
    {parts : List Part} (h : HasParts source pieces parts) :
    (parts.map Part.canonical).flatMap Part.source = source ↔
      ∀ digits, .marker digits ∈ parts → HasNoLeadingZero digits := by
  have hsame : (parts.map Part.canonical).flatMap Part.source = source ↔
      ∀ part ∈ parts, part.canonical = part := by
    constructor
    · intro hjoined
      have hparts := h.unique (hjoined ▸ h.canonical)
      exact List.map_inj_left.mp (hparts.trans (List.map_id parts).symm)
    · intro hparts
      rw [List.map_congr_left hparts, List.map_id', h.joined]
  rw [hsame]
  constructor
  · intro hparts digits hdigits
    exact (Part.canonical_eq_iff (h.digits _ hdigits)).mp (hparts _ hdigits) digits rfl
  · rintro hzero part hpart
    exact (Part.canonical_eq_iff (h.digits part hpart)).mpr fun digits hdigits =>
      hzero digits (hdigits ▸ hpart)

/-! ## Substitution -/

/-- A template is written as its parts, and they are determined. Filled with its own markers it is
given back exactly when none of them has leading zeros; with code in all slots each marker is
replaced by the code of its slot as it is, all at once. -/
theorem substitution_verbatim (source : String) :
    ∃ parts, HasParts source.toList (ofText source).pieces parts ∧
      (∀ other, HasParts source.toList (ofText source).pieces other → other = parts) ∧
      (∀ count, (∀ index, .marker index ∈ (ofText source).pieces → index < count) →
        ((ofText source).render ((ownMarkers count).map .raw) = .ok source ↔
          ∀ digits, .marker digits ∈ parts → HasNoLeadingZero digits)) ∧
      ∀ texts : List String,
        (∀ index, .marker index ∈ (ofText source).pieces → index < texts.length) →
        (ofText source).render (texts.map .raw) =
          .ok (String.ofList (parts.flatMap (Part.replaced texts))) := by
  obtain ⟨parts, hparts⟩ := exists_hasParts [] source.toList
  have hverbatim : ∀ texts : List String,
      (∀ index, .marker index ∈ (ofText source).pieces → index < texts.length) →
      (ofText source).render (texts.map .raw) =
        .ok (String.ofList (parts.flatMap (Part.replaced texts))) := by
    intro texts henough
    have hread : parts.map Part.piece = (ofText source).pieces := hparts.read
    rw [render, ← hread, fill_raw (hread ▸ henough)]
    rfl
  refine ⟨parts, hparts, fun other => hparts.unique, fun count henough => ?_, hverbatim⟩
  have hlength : (ownMarkers count).length = count := by simp [ownMarkers]
  rw [hverbatim (ownMarkers count) (by rwa [hlength]),
    flatMap_replaced_ownMarkers (by rwa [hparts.read]), ← hparts.canonical_joined_iff,
    Except.ok.injEq]
  constructor
  · intro hsource
    rw [← hsource, String.toList_ofList]
    rfl
  · intro hjoined
    rw [hjoined]
    exact String.ofList_toList

/-- Two markers among braces that open none, the last of them before a number that is too large. -/
def mixed : List Part :=
  [.text ['a', '{', '{'], .marker ['1'], .text ['é'], .marker ['0'],
    .text (markerText (decimal (twoTo 64)) ++ ['b'])]

theorem hasParts_mixed :
    let source := mixed.flatMap Part.source
    HasParts source (split [] source) mixed := by
  refine ⟨rfl, by decide +kernel, ?_⟩
  simp [mixed, Part.HasDigits, isDigit]

theorem substitution_verbatim_of_mixed :
    let source := String.ofList (mixed.flatMap Part.source)
    (ofText source).render ((ownMarkers 2).map .raw) = .ok source ∧
      (ofText source).render ((ownMarkers 2).reverse.map .raw) =
        .ok (String.ofList (mixed.flatMap (Part.replaced (ownMarkers 2).reverse))) := by
  intro source
  have hmixed : HasParts source.toList (ofText source).pieces mixed := by
    simpa [source, ofText] using hasParts_mixed
  have henough : ∀ index, .marker index ∈ (ofText source).pieces → index < 2 := by
    rw [← hmixed.read]
    simp [mixed, Part.piece, Nat.ofDigitChars]
  obtain ⟨parts, -, hunique, hown, hverbatim⟩ := substitution_verbatim source
  obtain rfl := hunique mixed hmixed
  refine ⟨(hown 2 henough).mpr ?_, hverbatim _ henough⟩
  simp [mixed, HasNoLeadingZero]

end Template

end LinkedApi
