import LinkedApi.Proofs.Template
import LinkedApi.Proofs.Text.Split
import Mathlib.Algebra.Ring.Parity

/-!
# Markers of templates

A template is read from the left. Double braces that open no marker are passed over as a pair, so
that of several braces before a marker each two belong together. A marker is therefore found exactly
when an even number of braces stands directly before it, and then the template is what stands before
it, the marker, and what stands after it. With an odd number of braces it is text.
-/

namespace LinkedApi.Template

open Text

/-- A marker stands in a text directly after its beginning `before`. -/
def MarkerAfter (before cs : List Char) : Prop :=
  ∃ digits index after, IsIndex digits index ∧ cs = before ++ (markerText digits ++ after)

/-- How many opening braces have been counted since the last other character. -/
def countBrace (count : Nat) (c : Char) : Nat := if c = '{' then count + 1 else 0

def bracesAtEnd (cs : List Char) : Nat := cs.foldl countBrace 0

/-! ## Numbers between braces -/

theorem IsIndex.open_not_mem {digits : List Char} {index : Nat} (h : IsIndex digits index) :
    '{' ∉ digits ++ ['}', '}'] := by
  have hdigits : '{' ∉ digits := fun hmem => by cases h.digit '{' hmem
  simp [hdigits]

/-- Where no number is closed, none is closed by what follows a brace. -/
theorem closedNumber?_append_none {cs rest : List Char} (h : closedNumber? cs = none)
    (hrest : ∀ c ∈ rest.head?, c = '{') : closedNumber? (cs ++ rest) = none := by
  rw [Option.eq_none_iff_forall_ne_some] at h ⊢
  rintro ⟨index, after⟩ hsome
  obtain ⟨digits, hindex, heq⟩ := closedNumber?_eq_some_iff.mp hsome
  cases rest with
  | nil => exact h (index, after) (by rwa [List.append_nil] at hsome)
  | cons c rest =>
    obtain rfl := hrest c rfl
    have hclosed : (digits ++ ['}', '}']) ++ after = cs ++ '{' :: rest := by simpa using heq.symm
    obtain ⟨more, rfl, -⟩ := exists_append_of_not_mem hindex.open_not_mem hclosed
    exact h (index, more) (closedNumber?_eq_some_iff.mpr ⟨digits, hindex, by simp⟩)

@[simp]
theorem closedNumber?_open (cs : List Char) : closedNumber? ('{' :: cs) = none := by
  rw [closedNumber?, List.dropWhile_cons_of_neg (by decide)]
  rfl

theorem isPlain_of_not_mem {cs : List Char} (h : '{' ∉ cs) : isPlain cs = true := by
  induction cs with
  | nil => rfl
  | cons c cs ih =>
    obtain ⟨hc, hcs⟩ := List.ne_and_not_mem_of_not_mem_cons h
    simp [isPlain, hc.symm, ih hcs]

/-- A single brace opens no marker. -/
theorem IsIndex.isPlain_open {digits : List Char} {index : Nat} (h : IsIndex digits index) :
    isPlain ('{' :: (digits ++ ['}', '}'])) = true := by
  obtain ⟨d, rest, rfl⟩ := List.exists_cons_of_ne_nil h.ne_nil
  have hrest := isPlain_of_not_mem h.open_not_mem
  have hd : d ≠ '{' := fun hd => h.open_not_mem (by simp [hd])
  rw [isPlain, hrest]
  simp [hd]

/-! ## Steps -/

@[simp]
theorem split_nil (before : List Char) : split before [] = textPiece before.reverse := by
  rw [split]

/-- Two braces that open no marker are copied together. -/
theorem split_open_text {rest : List Char} (h : closedNumber? rest = none) (before : List Char) :
    split before ('{' :: '{' :: rest) = split ('{' :: '{' :: before) rest := by
  rw [split]
  split <;> simp_all

theorem split_skip {c : Char} {rest : List Char}
    (h : ∀ tail, c = '{' → rest = '{' :: tail → False) (before : List Char) :
    split before (c :: rest) = split (c :: before) rest := by
  rw [split]
  exact h

/-! ## Braces -/

theorem countBrace_of_ne {c : Char} (h : c ≠ '{') (count : Nat) : countBrace count c = 0 := if_neg h

@[simp]
theorem bracesAtEnd_concat_open (cs : List Char) :
    bracesAtEnd (cs ++ ['{']) = bracesAtEnd cs + 1 := by
  rw [bracesAtEnd, List.foldl_append]
  rfl

theorem bracesAtEnd_concat_of_ne {c : Char} (h : c ≠ '{') (cs : List Char) :
    bracesAtEnd (cs ++ [c]) = 0 := by
  rw [bracesAtEnd, List.foldl_append]
  exact countBrace_of_ne h _

/-- Only what stands after another character counts. -/
theorem bracesAtEnd_append_cons {c : Char} (h : c ≠ '{') (before after : List Char) :
    bracesAtEnd (before ++ c :: after) = bracesAtEnd after := by
  rw [bracesAtEnd, List.foldl_append, List.foldl_cons, countBrace_of_ne h]
  rfl

@[simp]
theorem bracesAtEnd_markerText (before digits after : List Char) :
    bracesAtEnd (before ++ (markerText digits ++ after)) = bracesAtEnd after := by
  have hsame : before ++ (markerText digits ++ after) =
      (before ++ '{' :: '{' :: (digits ++ ['}'])) ++ '}' :: after := by
    simp [markerText]
  rw [hsame, bracesAtEnd_append_cons (by decide)]

@[simp]
theorem even_foldl_countBrace (cs : List Char) (count : Nat) :
    Even (cs.foldl countBrace (count + 2)) ↔ Even (cs.foldl countBrace count) := by
  induction cs generalizing count with
  | nil => exact Nat.even_add.trans (by simp)
  | cons c cs ih =>
    rw [List.foldl_cons, List.foldl_cons]
    by_cases hc : c = '{'
    · simp only [countBrace, hc, if_true]
      exact ih (count + 1)
    · rw [countBrace_of_ne hc, countBrace_of_ne hc]

/-- A pair of braces at the beginning does not matter. -/
@[simp]
theorem even_bracesAtEnd_pair (cs : List Char) :
    Even (bracesAtEnd ('{' :: '{' :: cs)) ↔ Even (bracesAtEnd cs) :=
  even_foldl_countBrace cs 0

/-- A brace that is no pair with the next character is followed by another one. -/
theorem even_bracesAtEnd_of_cons {c : Char} {cs : List Char}
    (hpair : ∀ tail, c = '{' → cs = '{' :: tail → False) (h : Even (bracesAtEnd (c :: cs))) :
    Even (bracesAtEnd cs) ∧ (c = '{' → cs ≠ []) := by
  by_cases hc : c = '{'
  · cases cs with
    | nil => simp [hc, bracesAtEnd, countBrace] at h
    | cons d cs =>
      have hd : d ≠ '{' := fun hd => hpair cs hc (by rw [hd])
      have hskip : bracesAtEnd (c :: d :: cs) = bracesAtEnd (d :: cs) :=
        (bracesAtEnd_append_cons hd [c] cs).trans (bracesAtEnd_append_cons hd [] cs).symm
      exact ⟨hskip ▸ h, fun _ => List.cons_ne_nil d cs⟩
  · have hskip : bracesAtEnd (c :: cs) = bracesAtEnd cs := bracesAtEnd_append_cons hc [] cs
    exact ⟨hskip ▸ h, fun hopen => absurd hopen hc⟩

/-- Of an odd number of braces, the last one stands after pairs. -/
theorem exists_of_odd_bracesAtEnd {cs : List Char} (h : Odd (bracesAtEnd cs)) :
    ∃ before, cs = before ++ ['{'] ∧ Even (bracesAtEnd before) := by
  cases cs using List.reverseRecOn with
  | nil => simp [bracesAtEnd] at h
  | append_singleton before c =>
    by_cases hc : c = '{'
    · subst hc
      rw [bracesAtEnd_concat_open, Nat.odd_add_one, Nat.not_odd_iff_even] at h
      exact ⟨before, rfl, h⟩
    · rw [bracesAtEnd_concat_of_ne hc] at h
      simp at h

/-! ## Where reading goes on -/

/-- After an even number of braces reading goes on at the next brace, whatever follows it. -/
theorem split_resumes {before cs : List Char} (h : Even (bracesAtEnd cs)) :
    ∃ done held, ∀ rest : List Char, (∀ c ∈ rest.head?, c = '{') →
      split before (cs ++ rest) = done ++ split held rest := by
  fun_induction split before cs with
  | case1 before => exact ⟨[], before, fun rest _ => rfl⟩
  | case2 before cs index after hclosed ih =>
    obtain ⟨digits, hindex, rfl⟩ := closedNumber?_eq_some_iff.mp hclosed
    have hsame : '{' :: '{' :: (digits ++ '}' :: '}' :: after) = markerText digits ++ after := by
      simp [markerText]
    rw [hsame] at h ⊢
    obtain ⟨done, held, hgoes⟩ := ih (by rwa [← bracesAtEnd_markerText []])
    refine ⟨textPiece before.reverse ++ .marker index :: done, held, fun rest hrest => ?_⟩
    rw [List.append_assoc, split_open_marker hindex, hgoes rest hrest]
    simp
  | case3 before cs hclosed ih =>
    obtain ⟨done, held, hgoes⟩ := ih ((even_bracesAtEnd_pair cs).mp h)
    refine ⟨done, held, fun rest hrest => ?_⟩
    rw [List.cons_append, List.cons_append,
      split_open_text (closedNumber?_append_none hclosed hrest), hgoes rest hrest]
  | case4 before c cs hpair ih =>
    obtain ⟨heven, hne⟩ := even_bracesAtEnd_of_cons hpair h
    obtain ⟨done, held, hgoes⟩ := ih heven
    refine ⟨done, held, fun rest hrest => ?_⟩
    have hskip : ∀ tail, c = '{' → cs ++ rest = '{' :: tail → False := by
      intro tail hc htail
      obtain ⟨d, cs, rfl⟩ := List.exists_cons_of_ne_nil (hne hc)
      obtain ⟨rfl, -⟩ := List.cons.inj htail
      exact hpair cs hc rfl
    rw [List.cons_append, split_skip hskip, hgoes rest hrest]

theorem head?_markerText (digits after : List Char) :
    ∀ c ∈ (markerText digits ++ after).head?, c = '{' := by
  simp [markerText]

/-- What stands before a marker is read as if it were all, when no brace is left before it. -/
theorem split_append_markerText {before digits : List Char} {index : Nat}
    (heven : Even (bracesAtEnd before)) (h : IsIndex digits index) (after : List Char) :
    split [] (before ++ (markerText digits ++ after)) =
      split [] before ++ .marker index :: split [] after := by
  obtain ⟨done, held, hgoes⟩ := @split_resumes [] before heven
  have hall := hgoes [] (by simp)
  rw [List.append_nil] at hall
  rw [hall, hgoes _ (head?_markerText digits after), split_open_marker h, split_nil,
    List.append_assoc]

/-- Text that has been read stands at the beginning of a piece. -/
theorem split_held {held : List Char} (h : held ≠ []) (cs : List Char) :
    ∃ more back, split held cs = .text (held.reverse ++ more) :: back := by
  fun_induction split held cs with
  | case1 held => exact ⟨[], [], by simp [textPiece_of_ne_nil, h]⟩
  | case2 held cs index after hclosed =>
    exact ⟨[], .marker index :: split [] after, by simp [textPiece_of_ne_nil, h]⟩
  | case3 held cs hclosed ih =>
    obtain ⟨more, back, heq⟩ := ih (List.cons_ne_nil _ _)
    exact ⟨'{' :: '{' :: more, back, by simpa using heq⟩
  | case4 held c cs hpair ih =>
    obtain ⟨more, back, heq⟩ := ih (List.cons_ne_nil _ _)
    exact ⟨c :: more, back, by simpa using heq⟩

/-- The second brace of a pair does not begin a marker. -/
theorem split_append_open_markerText {before digits : List Char} {index : Nat}
    (heven : Even (bracesAtEnd before)) (h : IsIndex digits index) (after : List Char) :
    ∃ done kept more back, split [] (before ++ ['{']) = done ++ [.text kept] ∧
      split [] (before ++ ['{'] ++ (markerText digits ++ after)) =
        done ++ .text (kept ++ (markerText digits ++ more)) :: back := by
  obtain ⟨done, held, hgoes⟩ := @split_resumes [] before heven
  have hplain := h.isPlain_open
  have hnone := closedNumber?_open (digits ++ ['}', '}'] ++ after)
  obtain ⟨more, back, hmore⟩ := @split_held
    (('{' :: (digits ++ ['}', '}'])).reverse ++ ('{' :: '{' :: held)) (by simp) after
  refine ⟨done, held.reverse ++ ['{'], more, back, ?_, ?_⟩
  · rw [hgoes ['{'] (by simp), split_skip (by simp), split_nil]
    simp [textPiece_of_ne_nil]
  · have hpair : before ++ ['{'] ++ (markerText digits ++ after) =
        before ++ ('{' :: '{' :: '{' :: (digits ++ ['}', '}'] ++ after)) := by
      simp [markerText]
    rw [hpair, hgoes _ (by simp), split_open_text hnone, ← List.cons_append, split_plain hplain,
      hmore]
    simp [markerText]

/-! ## Markers in text -/

theorem MarkerAfter.append {before cs : List Char} (h : MarkerAfter before cs) (rest : List Char) :
    MarkerAfter before (cs ++ rest) := by
  obtain ⟨digits, index, after, hindex, rfl⟩ := h
  exact ⟨digits, index, after ++ rest, hindex, by simp⟩

theorem MarkerAfter.append_left {before cs : List Char} (h : MarkerAfter before cs)
    (first : List Char) : MarkerAfter (first ++ before) (first ++ cs) := by
  obtain ⟨digits, index, after, hindex, rfl⟩ := h
  exact ⟨digits, index, after, hindex, by simp⟩

theorem MarkerAfter.length_lt {before cs : List Char} (h : MarkerAfter before cs) :
    before.length < cs.length := by
  obtain ⟨digits, index, after, hindex, rfl⟩ := h
  simp only [markerText, List.length_append, List.length_cons]
  omega

/-- Where a text is parted, a marker begins the second part. -/
theorem MarkerAfter.of_length_eq {before first cs : List Char} (h : MarkerAfter before (first ++ cs))
    (hlength : before.length = first.length) : before = first ∧ MarkerAfter [] cs := by
  obtain ⟨digits, index, after, hindex, heq⟩ := h
  obtain ⟨rfl, rfl⟩ := List.append_inj heq.symm hlength
  exact ⟨rfl, digits, index, after, hindex, rfl⟩

theorem MarkerAfter.closedNumber? {cs : List Char} (h : MarkerAfter [] ('{' :: '{' :: cs)) :
    closedNumber? cs ≠ none := by
  obtain ⟨digits, index, after, hindex, heq⟩ := h
  have hcs : cs = digits ++ '}' :: '}' :: after := by simpa [markerText] using heq
  rw [closedNumber?_eq_some_iff.mpr ⟨digits, hindex, hcs⟩]
  exact Option.some_ne_none _

theorem MarkerAfter.eq_pair {c : Char} {cs : List Char} (h : MarkerAfter [] (c :: cs)) :
    c = '{' ∧ ∃ tail, cs = '{' :: tail := by
  obtain ⟨digits, index, after, hindex, heq⟩ := h
  simp only [markerText, List.nil_append, List.cons_append, List.cons.injEq] at heq
  exact ⟨heq.1, _, heq.2⟩

theorem mem_textPiece {chars found : List Char} (h : .text found ∈ textPiece chars) :
    found = chars := by
  unfold textPiece at h
  split at h
  · cases h
  · simpa using h

/-- What holds while a template is read: a marker that begins in the text that has been read has an
odd number of braces before it, and at a brace an even number of them has been read. -/
structure Reading (before cs : List Char) : Prop where
  odd : ∀ first, MarkerAfter first (before.reverse ++ cs) → first.length < before.length →
    Odd (bracesAtEnd first)
  even : ∀ tail, cs = '{' :: tail → Even (bracesAtEnd before.reverse)

theorem Reading.start (cs : List Char) : Reading [] cs :=
  ⟨fun _ _ hlt => absurd hlt (Nat.not_lt_zero _), fun _ _ => by decide⟩

/-- A marker in the text that has been read is one of the template. -/
theorem Reading.held {before cs first : List Char} (h : Reading before cs)
    (hfirst : MarkerAfter first before.reverse) :
    MarkerAfter first (before.reverse ++ cs) ∧ Odd (bracesAtEnd first) :=
  ⟨hfirst.append cs, h.odd first (hfirst.append cs) (by simpa using hfirst.length_lt)⟩

theorem Reading.pair {before cs : List Char} (h : Reading before ('{' :: '{' :: cs))
    (hclosed : Template.closedNumber? cs = none) : Reading ('{' :: '{' :: before) cs := by
  have heven : Even (bracesAtEnd before.reverse) := h.even _ rfl
  have hread : ('{' :: '{' :: before).reverse ++ cs = before.reverse ++ '{' :: '{' :: cs := by simp
  constructor
  · intro first hfirst hlt
    rw [hread] at hfirst
    rcases Nat.lt_trichotomy first.length before.length with hbefore | hbefore | hbefore
    · exact h.odd first hfirst hbefore
    · obtain ⟨-, hmarker⟩ := hfirst.of_length_eq (by simpa using hbefore)
      exact absurd hclosed hmarker.closedNumber?
    · -- The marker begins with the second brace of the pair.
      have hsecond : before.reverse ++ '{' :: '{' :: cs = (before.reverse ++ ['{']) ++ '{' :: cs := by
        simp
      rw [hsecond] at hfirst
      simp only [List.length_cons] at hlt
      obtain ⟨rfl, -⟩ := hfirst.of_length_eq (by simp; omega)
      rw [bracesAtEnd_concat_open]
      exact heven.add_one
  · intro tail _
    rw [List.reverse_cons, List.reverse_cons, bracesAtEnd_concat_open, bracesAtEnd_concat_open]
    exact heven.add_one.add_one

/-- Reading goes on after a character that begins no pair of braces. -/
theorem Reading.skip {before cs : List Char} {c : Char} (h : Reading before (c :: cs))
    (hpair : ∀ tail, c = '{' → cs = '{' :: tail → False) : Reading (c :: before) cs := by
  have hread : (c :: before).reverse ++ cs = before.reverse ++ c :: cs := by simp
  constructor
  · intro first hfirst hlt
    rw [hread] at hfirst
    rcases Nat.lt_succ_iff_lt_or_eq.mp hlt with hlt | hlength
    · exact h.odd first hfirst hlt
    · obtain ⟨-, hmarker⟩ := hfirst.of_length_eq (by simpa using hlength)
      obtain ⟨hc, tail, htail⟩ := hmarker.eq_pair
      exact (hpair tail hc htail).elim
  · intro tail htail
    have hc : c ≠ '{' := fun hc => hpair tail hc htail
    rw [List.reverse_cons, bracesAtEnd_concat_of_ne hc]
    exact Even.zero

/-- A piece of text holds a marker only if one of the template has an odd number of braces before
it. -/
theorem Reading.exists_odd {before cs chars first : List Char} (h : Reading before cs)
    (hchars : .text chars ∈ split before cs) (hfirst : MarkerAfter first chars) :
    ∃ first, MarkerAfter first (before.reverse ++ cs) ∧ Odd (bracesAtEnd first) := by
  fun_induction split before cs with
  | case1 before =>
    rw [mem_textPiece hchars] at hfirst
    exact ⟨first, h.held hfirst⟩
  | case2 before cs index after hclosed ih =>
    rcases List.mem_append.mp hchars with hchars | hchars
    · rw [mem_textPiece hchars] at hfirst
      exact ⟨first, h.held hfirst⟩
    · obtain ⟨digits, hindex, rfl⟩ := closedNumber?_eq_some_iff.mp hclosed
      obtain ⟨found, hfound, hodd⟩ := ih (.start after) (by simpa using hchars)
      refine ⟨before.reverse ++ (markerText digits ++ found), ?_, ?_⟩
      · have hmarker := (hfound.append_left (markerText digits)).append_left before.reverse
        simpa [markerText] using hmarker
      · rwa [bracesAtEnd_markerText]
  | case3 before cs hclosed ih =>
    have hgoes := ih (h.pair hclosed) hchars
    simpa using hgoes
  | case4 before c cs hpair ih =>
    have hgoes := ih (h.skip hpair) hchars
    simpa using hgoes

/-! ## Filling -/

def written (slots : List Slot) (index : Nat) : Except TemplateError (List Char) :=
  match slots[index]? with
  | some slot => slot.write
  | none => .error (.missingArgument index slots.length)

@[simp]
theorem fill_marker (slots : List Slot) (index : Nat) (rest : List Piece) :
    fill slots (.marker index :: rest) = do
      return (← written slots index) ++ (← fill slots rest) := by
  rw [fill, written]
  cases slots[index]? <;> rfl

theorem fill_append (slots : List Slot) (one other : List Piece) :
    fill slots (one ++ other) = do return (← fill slots one) ++ (← fill slots other) := by
  induction one with
  | nil =>
    rw [List.nil_append]
    cases fill slots other <;> rfl
  | cons piece rest ih =>
    cases piece with
    | text chars =>
      simp only [List.cons_append, fill, ih, bind_assoc, pure_bind, List.append_assoc]
    | marker index =>
      simp only [List.cons_append, fill_marker, ih, bind_assoc, pure_bind, List.append_assoc]

/-- A template that is parted at a marker is filled part by part. -/
theorem render_of_pieces {source : String} {before after : List Char} {index : Nat}
    (h : (ofText source).pieces = split [] before ++ .marker index :: split [] after)
    (slots : List Slot) :
    (ofText source).render slots = do
      let first ← (ofText (String.ofList before)).render slots
      let middle ← written slots index
      let last ← (ofText (String.ofList after)).render slots
      return first ++ String.ofList middle ++ last := by
  rw [render, h, fill_append, fill_marker]
  simp only [render, ofText, String.toList_ofList]
  cases fill slots (split [] before) with
  | error e => rfl
  | ok first =>
    cases written slots index with
    | error e => rfl
    | ok middle =>
      cases fill slots (split [] after) with
      | error e => rfl
      | ok last =>
        simp only [Except.map, bind, Except.bind, pure, Except.pure, String.ofList_append,
          String.append_assoc]

section

variable {source : String} {before digits after : List Char} {index : Nat}

theorem pieces_of_even (h : IsIndex digits index)
    (hsource : source.toList = before ++ (markerText digits ++ after))
    (heven : Even (bracesAtEnd before)) :
    (ofText source).pieces = split [] before ++ .marker index :: split [] after := by
  rw [ofText, hsource, split_append_markerText heven h]

theorem pieces_of_odd (h : IsIndex digits index)
    (hsource : source.toList = before ++ (markerText digits ++ after))
    (hodd : Odd (bracesAtEnd before)) :
    ∃ done kept more back, split [] before = done ++ [.text kept] ∧
      (ofText source).pieces = done ++ .text (kept ++ (markerText digits ++ more)) :: back := by
  obtain ⟨before, rfl, heven⟩ := exists_of_odd_bracesAtEnd hodd
  rw [ofText, hsource]
  exact split_append_open_markerText heven h after

end

/-- Text of a template holds a marker exactly when some marker has an odd number of braces before
it. A marker after an even number is replaced, between what stands before it and what stands after
it; a marker after an odd number stays in the text that ends before it. -/
theorem markers_found_unless_odd (source : String) :
    ((∃ chars before, .text chars ∈ (ofText source).pieces ∧ MarkerAfter before chars) ↔
      ∃ before, MarkerAfter before source.toList ∧ Odd (bracesAtEnd before)) ∧
    ∀ before digits index after, IsIndex digits index →
      source.toList = before ++ (markerText digits ++ after) →
      (Even (bracesAtEnd before) →
        (ofText source).pieces = split [] before ++ .marker index :: split [] after ∧
        ∀ slots, (ofText source).render slots = do
          let first ← (ofText (String.ofList before)).render slots
          let middle ← written slots index
          let last ← (ofText (String.ofList after)).render slots
          return first ++ String.ofList middle ++ last) ∧
      (Odd (bracesAtEnd before) →
        ∃ done kept more back, split [] before = done ++ [.text kept] ∧
          (ofText source).pieces =
            done ++ .text (kept ++ (markerText digits ++ more)) :: back) := by
  refine ⟨⟨?_, ?_⟩, fun before digits index after hindex hsource => ⟨fun heven => ?_, ?_⟩⟩
  · rintro ⟨chars, before, hchars, hbefore⟩
    exact (Reading.start source.toList).exists_odd hchars hbefore
  · rintro ⟨before, ⟨digits, index, after, hindex, hsource⟩, hodd⟩
    obtain ⟨done, kept, more, back, -, hpieces⟩ := pieces_of_odd hindex hsource hodd
    exact ⟨_, kept, by simp [hpieces], digits, index, more, hindex, rfl⟩
  · have hpieces := pieces_of_even hindex hsource heven
    exact ⟨hpieces, render_of_pieces hpieces⟩
  · exact pieces_of_odd hindex hsource

theorem isIndex_zero : IsIndex ['0'] 0 := @IsIndex.of_decimal 0 (lt_twoTo_of_digit (by decide))

/-- A marker after two braces, and another one after one brace. -/
def braced : List Char :=
  ['a', '{', '{'] ++ (markerText ['0'] ++ '{' :: (markerText ['0'] ++ ['b']))

theorem markers_found_unless_odd_of_braced :
    (ofText (String.ofList braced)).pieces =
        split [] ['a', '{', '{'] ++ .marker 0 :: split [] ('{' :: (markerText ['0'] ++ ['b'])) ∧
      ∃ done kept more back,
        split [] (['a', '{', '{'] ++ markerText ['0'] ++ ['{']) = done ++ [.text kept] ∧
          (ofText (String.ofList braced)).pieces =
            done ++ .text (kept ++ (markerText ['0'] ++ more)) :: back := by
  have hsource : (String.ofList braced).toList = braced := String.toList_ofList
  have hparts := (markers_found_unless_odd (String.ofList braced)).2
  exact ⟨((hparts _ _ _ _ isIndex_zero hsource).1 (by decide)).1,
    (hparts (['a', '{', '{'] ++ markerText ['0'] ++ ['{']) _ _ ['b'] isIndex_zero hsource).2
      (by decide)⟩

/-- The second of two braces does not begin a marker. -/
theorem marker_after_brace_kept :
    let source := '{' :: markerText ['0']
    MarkerAfter ['{'] source ∧ (ofText (String.ofList source)).pieces = [.text source] ∧
      (ofText (String.ofList source)).render [.raw "x"] = .ok (String.ofList source) := by
  refine ⟨⟨['0'], 0, [], isIndex_zero, rfl⟩, by decide +kernel, by decide +kernel⟩

end LinkedApi.Template
