import LinkedApi.Proofs.Text.Split
import LinkedApi.Text.SingleLine
import Mathlib.Tactic.Common

/-!
# Words of single-line texts

The words of a text are its non-empty pieces between separators. Written in a single line a text is
these words with one space between them. Everything else follows from this equation: the words stay
apart, no other character is lost, and no separator can be left out.
-/

namespace LinkedApi.Text

def wordsOf (cs : List Char) : List (List Char) :=
  (cs.splitOnP isSeparator).filter fun piece => !piece.isEmpty

def spaced (words : List (List Char)) : List Char := words.flatMap (' ' :: ·)

/-- Two single lines as one. -/
def besides (one other : List Char) : List Char :=
  if one.isEmpty then other else if other.isEmpty then one else one ++ ' ' :: other

/-- A word is not empty, and no separator stands in it. -/
structure IsWord (word : List Char) : Prop where
  ne_nil : word ≠ []
  whole : ∀ c ∈ word, isSeparator c = false

/-! ## Words -/

@[simp]
theorem isSeparator_blank : isSeparator ' ' = true := rfl

/-- No piece of a split holds a character that was split at. -/
theorem whole_of_mem_splitOnP {α : Type} {p : α → Bool} {xs piece : List α}
    (h : piece ∈ xs.splitOnP p) : ∀ x ∈ piece, p x = false := by
  induction xs generalizing piece with
  | nil =>
    rw [List.splitOnP_nil, List.mem_singleton] at h
    simp [h]
  | cons x xs ih =>
    obtain ⟨first, more, hsplit⟩ := List.exists_cons_of_ne_nil (List.splitOnP_ne_nil p xs)
    rw [List.splitOnP_cons_eq_if_modifyHead, hsplit] at h
    rw [hsplit] at ih
    by_cases hx : p x = true
    · rw [if_pos hx] at h
      rcases List.mem_cons.mp h with rfl | h
      · simp
      · exact ih h
    · rw [if_neg hx, List.modifyHead_cons] at h
      rcases List.mem_cons.mp h with rfl | h
      · exact List.forall_mem_cons.mpr ⟨Bool.eq_false_iff.mpr hx, ih List.mem_cons_self⟩
      · exact ih (List.mem_cons_of_mem first h)

theorem isWord_of_mem {cs word : List Char} (h : word ∈ wordsOf cs) : IsWord word := by
  obtain ⟨hpiece, hne⟩ := List.mem_filter.mp h
  exact ⟨by simpa using hne, whole_of_mem_splitOnP hpiece⟩

/-- The words on both sides of a separator are words of their own. -/
theorem wordsOf_append {c : Char} (h : isSeparator c = true) (before after : List Char) :
    wordsOf (before ++ c :: after) = wordsOf before ++ wordsOf after := by
  rw [wordsOf, List.splitOnP_append_cons before after h, List.filter_append]
  rfl

theorem wordsOf_cons {c : Char} (h : isSeparator c = true) (cs : List Char) :
    wordsOf (c :: cs) = wordsOf cs := wordsOf_append h [] cs

theorem IsWord.wordsOf {word : List Char} (h : IsWord word) : wordsOf word = [word] := by
  rw [Text.wordsOf, List.splitOnP_eq_singleton h.whole]
  simp [h.ne_nil]

theorem flatten_splitOnP {α : Type} (p : α → Bool) (xs : List α) :
    (xs.splitOnP p).flatten = xs.filter fun x => !p x := by
  induction xs with
  | nil => rfl
  | cons x xs ih =>
    obtain ⟨first, more, hsplit⟩ := List.exists_cons_of_ne_nil (List.splitOnP_ne_nil p xs)
    rw [List.splitOnP_cons_eq_if_modifyHead]
    rw [hsplit] at ih ⊢
    by_cases hx : p x = true
    · simp [hx, ← ih]
    · simp [hx, ← ih]

/-- The words hold what is no separator, in order. -/
@[simp]
theorem flatten_wordsOf (cs : List Char) :
    (wordsOf cs).flatten = cs.filter fun c => !isSeparator c := by
  rw [wordsOf, List.flatten_filter_not_isEmpty, flatten_splitOnP]

/-! ## Words with spaces between them -/

theorem joinWith_blank (words : List (List Char)) : joinWith ' ' words = (spaced words).tail := by
  induction words with
  | nil => rfl
  | cons word rest ih =>
    rw [spaced, List.flatMap_cons, List.cons_append, List.tail_cons]
    cases rest with
    | nil => rw [joinWith, List.intercalate_singleton, List.flatMap_nil, List.append_nil]
    | cons next rest =>
      rw [joinWith] at ih
      rw [joinWith, List.intercalate_cons_of_ne_nil (List.cons_ne_nil next rest), ih, spaced,
        List.flatMap_cons, List.cons_append, List.tail_cons, List.append_assoc]
      rfl

theorem wordsOf_append_spaced (cs : List Char) (words : List (List Char)) :
    wordsOf (cs ++ spaced words) = wordsOf cs ++ wordsOf (spaced words) := by
  cases words with
  | nil => simp [spaced, wordsOf]
  | cons word rest =>
    rw [spaced, List.flatMap_cons, List.cons_append, wordsOf_append isSeparator_blank,
      wordsOf_cons isSeparator_blank]

theorem wordsOf_spaced {words : List (List Char)} (h : ∀ word ∈ words, IsWord word) :
    wordsOf (spaced words) = words := by
  induction words with
  | nil => rfl
  | cons word rest ih =>
    rw [List.forall_mem_cons] at h
    have hspaced : spaced (word :: rest) = ' ' :: (word ++ spaced rest) := rfl
    rw [hspaced, wordsOf_cons isSeparator_blank, wordsOf_append_spaced, h.1.wordsOf, ih h.2]
    rfl

/-- Words are found again in their single line. -/
theorem wordsOf_joinWith {words : List (List Char)} (h : ∀ word ∈ words, IsWord word) :
    wordsOf (joinWith ' ' words) = words := by
  have hspaced := wordsOf_spaced h
  rw [joinWith_blank]
  cases words with
  | nil => rfl
  | cons word rest =>
    rw [spaced, List.flatMap_cons, List.cons_append, wordsOf_cons isSeparator_blank] at hspaced
    exact hspaced

theorem joinWith_append {one other : List (List Char)} (hone : ∀ word ∈ one, IsWord word)
    (hother : ∀ word ∈ other, IsWord word) :
    joinWith ' ' (one ++ other) = besides (joinWith ' ' one) (joinWith ' ' other) := by
  simp only [joinWith_blank, besides]
  cases one with
  | nil => simp [spaced]
  | cons word rest =>
    have hword : word ≠ [] := (hone word List.mem_cons_self).ne_nil
    cases other with
    | nil => simp [spaced]
    | cons next more =>
      have hnext : next ≠ [] := (hother next List.mem_cons_self).ne_nil
      simp [spaced, hword, hnext]

/-! ## The loop -/

/-- What the loop still writes, with the space that is due before it: while separators are passed
over these are the words to come, and inside of a word it is this word first. -/
theorem singleLineFrom_started (cs : List Char) :
    singleLineFrom true true cs = spaced (wordsOf cs) ∧
      ∀ word, IsWord word →
        ' ' :: (word ++ singleLineFrom true false cs) = spaced (wordsOf (word ++ cs)) := by
  induction cs with
  | nil =>
    refine ⟨rfl, fun word hword => ?_⟩
    rw [List.append_nil, hword.wordsOf]
    rfl
  | cons c rest ih =>
    obtain ⟨hpending, hinside⟩ := ih
    by_cases hc : isSeparator c = true
    · refine ⟨?_, fun word hword => ?_⟩
      · rw [singleLineFrom, if_pos hc, hpending, wordsOf_cons hc]
      · rw [singleLineFrom, if_pos hc, hpending, wordsOf_append hc, hword.wordsOf]
        rfl
    · have hone : IsWord [c] := ⟨List.cons_ne_nil c [], by simpa using hc⟩
      refine ⟨?_, fun word hword => ?_⟩
      · rw [singleLineFrom, if_neg hc]
        exact hinside [c] hone
      · have hlonger : IsWord (word ++ [c]) :=
          ⟨by simp, List.forall_mem_append.mpr ⟨hword.whole, hone.whole⟩⟩
        have hnext := hinside (word ++ [c]) hlonger
        rw [List.append_assoc, List.append_assoc] at hnext
        rw [singleLineFrom, if_neg hc]
        exact hnext

@[simp]
theorem singleLineFrom_start (pending : Bool) (cs : List Char) :
    singleLineFrom false pending cs = (spaced (wordsOf cs)).tail := by
  induction cs generalizing pending with
  | nil => rfl
  | cons c rest ih =>
    by_cases hc : isSeparator c = true
    · rw [singleLineFrom, if_pos hc, ih, wordsOf_cons hc]
    · have hone : IsWord [c] := ⟨List.cons_ne_nil c [], by simpa using hc⟩
      have hfirst := (singleLineFrom_started rest).2 [c] hone
      rw [List.singleton_append, List.singleton_append] at hfirst
      rw [singleLineFrom, if_neg hc, ← hfirst]
      rfl

/-- A single line is the words of the text with one blank between them. -/
theorem singleLine_eq (cs : List Char) : singleLine cs = joinWith ' ' (wordsOf cs) := by
  rw [singleLine, singleLineFrom_start, joinWith_blank]

/-- A single line has the words of the text. -/
@[simp]
theorem wordsOf_singleLine (cs : List Char) : wordsOf (singleLine cs) = wordsOf cs := by
  rw [singleLine_eq, wordsOf_joinWith fun _ => isWord_of_mem]

@[simp]
theorem singleLine_singleLine (cs : List Char) : singleLine (singleLine cs) = singleLine cs := by
  rw [singleLine_eq, wordsOf_singleLine, ← singleLine_eq]

theorem eq_blank_of_mem_singleLine {cs : List Char} {c : Char} (h : c ∈ singleLine cs)
    (hc : isSeparator c = true) : c = ' ' := by
  rw [singleLine_eq] at h
  rcases mem_joinWith h with h | ⟨word, hword, hmem⟩
  · exact h
  · rw [(isWord_of_mem hword).whole c hmem] at hc
    cases hc

/-! ## No separator can be left out -/

theorem length_singleLineFrom_le (started pending : Bool) (cs : List Char) :
    (singleLineFrom started pending cs).length ≤ cs.length + (started && pending).toNat := by
  induction cs generalizing started pending with
  | nil => exact Nat.zero_le _
  | cons c rest ih =>
    rw [singleLineFrom]
    split
    · have hnext := ih started true
      cases started <;> cases pending <;> simp at hnext ⊢ <;> omega
    · have hnext := ih true false
      cases started <;> cases pending <;> simp at hnext ⊢ <;> omega

/-- A single line is no longer than any text with the same words. -/
theorem length_singleLine_le {cs other : List Char} (h : wordsOf other = wordsOf cs) :
    (singleLine cs).length ≤ other.length := by
  rw [singleLine_eq, ← h, ← singleLine_eq]
  exact length_singleLineFrom_le false false other

/-- A text is no single line when a shorter one has its words. -/
theorem singleLine_ne {cs other line : List Char} (hshorter : other.length < line.length)
    (h : wordsOf other = wordsOf line) : singleLine cs ≠ line := by
  rintro rfl
  have hle := length_singleLine_le (h.trans (wordsOf_singleLine cs))
  omega

theorem head?_singleLine (cs : List Char) : (singleLine cs).head? ≠ some ' ' := by
  intro h
  obtain ⟨rest, hrest⟩ := List.head?_eq_some_iff.mp h
  exact singleLine_ne (by simp) (wordsOf_cons isSeparator_blank rest).symm hrest

theorem getLast?_singleLine (cs : List Char) : (singleLine cs).getLast? ≠ some ' ' := by
  intro h
  obtain ⟨before, hbefore⟩ := List.getLast?_eq_some_iff.mp h
  have hwords : wordsOf before = wordsOf (before ++ [' ']) := by
    rw [wordsOf_append isSeparator_blank]
    exact (List.append_nil _).symm
  exact singleLine_ne (by simp) hwords hbefore

theorem double_blank_not_infix (cs : List Char) : ¬[' ', ' '] <:+: singleLine cs := by
  rintro ⟨before, after, h⟩
  have hwords : wordsOf (before ++ ' ' :: after) = wordsOf (before ++ [' ', ' '] ++ after) := by
    rw [List.append_assoc, List.cons_append, List.singleton_append,
      wordsOf_append isSeparator_blank, wordsOf_append isSeparator_blank,
      wordsOf_cons isSeparator_blank]
  exact singleLine_ne (by simp) hwords h.symm

/-! ## Single lines -/

/-- A single line is the words of the text with one space between them. Its words are those of the
text, and nothing but separators is lost. It holds no other separators than single spaces between
words, so that it stays as it is when it is made a single line again, and the single line of two
texts on separate lines is that of the one besides that of the other. -/
theorem words_in_single_line :
    (∀ cs, singleLine cs = joinWith ' ' (wordsOf cs)) ∧
    (∀ cs, wordsOf (singleLine cs) = wordsOf cs ∧
      ((singleLine cs).filter fun c => !isSeparator c) = cs.filter fun c => !isSeparator c) ∧
    (∀ cs, '\n' ∉ singleLine cs ∧ '\r' ∉ singleLine cs ∧ (singleLine cs).head? ≠ some ' ' ∧
      (singleLine cs).getLast? ≠ some ' ' ∧ ¬[' ', ' '] <:+: singleLine cs) ∧
    (∀ cs, singleLine (singleLine cs) = singleLine cs) ∧
    ∀ one other, wordsOf (one ++ '\n' :: other) = wordsOf one ++ wordsOf other ∧
      singleLine (one ++ '\n' :: other) = besides (singleLine one) (singleLine other) := by
  have hnewline (one other : List Char) :
      wordsOf (one ++ '\n' :: other) = wordsOf one ++ wordsOf other := wordsOf_append rfl one other
  refine ⟨singleLine_eq, fun cs => ⟨wordsOf_singleLine cs, ?_⟩, fun cs => ?_,
    singleLine_singleLine, fun one other => ⟨hnewline one other, ?_⟩⟩
  · rw [← flatten_wordsOf, wordsOf_singleLine, flatten_wordsOf]
  · exact ⟨fun h => absurd (eq_blank_of_mem_singleLine h rfl) (by decide),
      fun h => absurd (eq_blank_of_mem_singleLine h rfl) (by decide), head?_singleLine cs,
      getLast?_singleLine cs, double_blank_not_infix cs⟩
  · rw [singleLine_eq, hnewline, joinWith_append (fun _ => isWord_of_mem) fun _ => isWord_of_mem,
      ← singleLine_eq, ← singleLine_eq]

end LinkedApi.Text
