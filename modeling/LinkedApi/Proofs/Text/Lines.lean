import LinkedApi.Proofs.Text.Literal
import LinkedApi.Proofs.Text.Split
import LinkedApi.Text.Identifier

/-!
# Lines

A line is complete when a line break follows it. Where a text is added at the beginning of a
line, its complete lines come after those that were there. Literals have no line breaks, so that
they never end a line.
-/

namespace LinkedApi.Text

/-! ## Complete lines -/

def lines (text : String) : List String :=
  (splitAt '\n' text.toList).dropLast.map String.ofList

/-- Each line with a line break after it. -/
def unlines (texts : List String) : String := String.join (texts.map (· ++ "\n"))

def EndsLine (text : String) : Prop := ∃ before, text = before ++ "\n"

/-- Whether what follows a text begins a line. -/
def AtLineStart (text : String) : Prop := text = "" ∨ EndsLine text

theorem EndsLine.append {text : String} (h : EndsLine text) (before : String) :
    EndsLine (before ++ text) := by
  obtain ⟨start, rfl⟩ := h
  exact ⟨before ++ start, (String.append_assoc ..).symm⟩

theorem AtLineStart.append {before text : String} (hbefore : AtLineStart before)
    (htext : AtLineStart text) : AtLineStart (before ++ text) := by
  rcases htext with rfl | htext
  · rwa [String.append_empty]
  · exact .inr (htext.append before)

theorem AtLineStart.join {texts : List String} (h : ∀ text ∈ texts, EndsLine text) :
    AtLineStart (String.join texts) := by
  induction texts with
  | nil => exact .inl rfl
  | cons text rest ih =>
    rw [List.forall_mem_cons] at h
    rw [String.join_cons]
    exact AtLineStart.append (.inr h.1) (ih h.2)

theorem toList_newline : ("\n" : String).toList = ['\n'] := rfl

@[simp]
theorem lines_empty : lines "" = [] := rfl

theorem lines_append {before : String} (h : AtLineStart before) (after : String) :
    lines (before ++ after) = lines before ++ lines after := by
  rcases h with rfl | ⟨start, rfl⟩
  · rw [String.empty_append, lines_empty, List.nil_append]
  · simp only [lines, String.toList_append, toList_newline, List.append_assoc, List.cons_append,
      List.nil_append, splitAt_append]
    rw [List.dropLast_append_of_ne_nil (splitAt_ne_nil _ _), splitAt,
      List.dropLast_append_of_ne_nil (by simp)]
    simp

/-- What holds of the parts of a text between its line breaks holds of its lines. -/
theorem forall_mem_lines {text : String} {cs : List Char} {P : List Char → Prop}
    (h : text.toList = cs) (hparts : ∀ part ∈ (splitAt '\n' cs).dropLast, P part) :
    ∀ line ∈ lines text, P line.toList := by
  intro line hline
  rw [lines, h] at hline
  obtain ⟨part, hpart, rfl⟩ := List.mem_map.mp hline
  rw [String.toList_ofList]
  exact hparts part hpart

/-- Where one thing is read from the lines of each text, these are read from all of them in turn. -/
theorem filterMap_lines_join {α β : Type} {f : String → Option β} {piece : α → String}
    {read : α → β} {xs : List α} (hends : ∀ x, EndsLine (piece x))
    (h : ∀ x ∈ xs, (lines (piece x)).filterMap f = [read x]) :
    (lines (String.join (xs.map piece))).filterMap f = xs.map read := by
  induction xs with
  | nil => rfl
  | cons x rest ih =>
    rw [List.forall_mem_cons] at h
    rw [List.map_cons, String.join_cons, lines_append (.inr (hends x)), List.filterMap_append, h.1,
      ih h.2]
    rfl

/-- A line that stands between two line breaks is complete. -/
theorem mem_lines {line : String} (h : '\n' ∉ line.toList) (before after : String) :
    line ∈ lines (before ++ "\n" ++ line ++ "\n" ++ after) := by
  have hsplit : splitAt '\n' (before ++ "\n" ++ line ++ "\n" ++ after).toList =
      splitAt '\n' before.toList ++ [line.toList] ++ splitAt '\n' after.toList := by
    simp only [String.toList_append, toList_newline, List.append_assoc, List.cons_append,
      List.nil_append, splitAt_append, splitAt_of_not_mem h]
  rw [lines, hsplit, List.dropLast_append_of_ne_nil (splitAt_ne_nil _ _)]
  exact List.mem_map.mpr ⟨line.toList, by simp, String.ofList_toList⟩

@[simp]
theorem unlines_cons (text : String) (rest : List String) :
    unlines (text :: rest) = text ++ "\n" ++ unlines rest := by
  simp [unlines, String.join_cons]

@[simp]
theorem unlines_singleton (text : String) : unlines [text] = text ++ "\n" := by
  rw [unlines_cons]
  exact String.append_empty

@[simp]
theorem unlines_append (xs ys : List String) : unlines (xs ++ ys) = unlines xs ++ unlines ys := by
  simp [unlines, String.join_append]

/-- Lines are read back if there are no line breaks in them. -/
theorem lines_unlines {texts : List String} (h : ∀ text ∈ texts, '\n' ∉ text.toList) :
    lines (unlines texts) = texts := by
  induction texts with
  | nil => rfl
  | cons text rest ih =>
    have hfirst : lines (text ++ "\n") = [text] := by
      have hsplit : splitAt '\n' (text ++ "\n").toList = [text.toList, []] := by
        rw [String.toList_append, toList_newline, splitAt_append,
          splitAt_of_not_mem (h text (by simp))]
        rfl
      rw [lines, hsplit]
      simp
    rw [unlines_cons, lines_append (.inr ⟨text, rfl⟩), hfirst,
      ih fun other hother => h other (List.mem_cons_of_mem text hother)]
    rfl

theorem endsLine_unlines (text : String) (rest : List String) :
    EndsLine (unlines (text :: rest)) := by
  induction rest generalizing text with
  | nil => exact ⟨text, unlines_singleton text⟩
  | cons next rest ih =>
    rw [unlines_cons]
    exact (ih next).append _

/-- Only the first of some lines may be cut off where they stand in a text. -/
theorem mem_lines_of_unlines {first line : String} {texts : List String} (hmem : line ∈ texts)
    (hline : '\n' ∉ line.toList) (before after : String) :
    line ∈ lines (before ++ unlines (first :: texts) ++ after) := by
  obtain ⟨xs, ys, rfl⟩ := List.append_of_mem hmem
  obtain ⟨start, hstart⟩ := endsLine_unlines first xs
  have hsplit : before ++ unlines (first :: (xs ++ line :: ys)) ++ after =
      before ++ start ++ "\n" ++ line ++ "\n" ++ (unlines ys ++ after) := by
    rw [← List.cons_append, unlines_append, unlines_cons line, hstart]
    simp only [String.append_assoc]
  rw [hsplit]
  exact mem_lines hline _ _

/-! ## Texts without line breaks -/

theorem newline_not_mem_literal (cs : List Char) : '\n' ∉ literal cs :=
  newline_not_mem (isLineTerminator_literal cs)

theorem isIdentifierChar_of_mem {name : String} (h : isIdentifier name) {c : Char}
    (hmem : c ∈ name.toList) : isIdentifierChar c := by
  rw [isIdentifier, Bool.and_eq_true] at h
  cases hname : name.toList with
  | nil =>
    rw [hname] at hmem
    cases hmem
  | cons first rest =>
    rw [hname, hasIdentifierForm, Bool.and_eq_true, List.all_eq_true] at h
    rw [hname] at hmem
    rcases List.mem_cons.mp hmem with rfl | hmem
    · rw [isIdentifierChar, h.1.1, Bool.true_or]
    · exact h.1.2 c hmem

/-- The characters of an identifier are none of those that end a line. -/
theorem newline_not_mem_identifier {name : String} (h : isIdentifier name) :
    '\n' ∉ name.toList :=
  fun hmem => absurd (isIdentifierChar_of_mem h hmem) (by decide)

end LinkedApi.Text
