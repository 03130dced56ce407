import LinkedApi.Proofs.Text.Split
import LinkedApi.Resolution.Pointer

/-!
# Pointers to keys

Any text may be the key of a mapping. Written with `~0` for each tilde and `~1` for each slash, it
is a token of a pointer, and after a slash it is a pointer that selects what stands under the key.
-/

namespace LinkedApi.Pointer

open Text

/-- How a character of a key is written in a token. -/
def escapeChar (c : Char) : List Char :=
  if c = '~' then ['~', '0'] else if c = '/' then ['~', '1'] else [c]

def escape (key : List Char) : List Char := key.flatMap escapeChar

def ofKey (key : String) : String := String.ofList ('/' :: escape key.toList)

theorem slash_not_mem_escape (key : List Char) : '/' ∉ escape key := by
  intro hmem
  obtain ⟨c, -, hc⟩ := List.mem_flatMap.mp hmem
  unfold escapeChar at hc
  split at hc
  · simp at hc
  · split at hc
    · simp at hc
    · next hslash => exact hslash (List.mem_singleton.mp hc).symm

theorem replaceEscape_of_ne {digit by' c : Char} (h : c ≠ '~') (rest : List Char) :
    replaceEscape digit by' (c :: rest) = c :: replaceEscape digit by' rest := by
  rw [replaceEscape]
  rintro d rest' rfl -
  exact h rfl

/-- Once the slashes are back, only the tildes are still escaped. -/
@[simp]
theorem replaceEscape_slash (key : List Char) :
    replaceEscape '1' '/' (escape key) =
      key.flatMap fun c => if c = '~' then ['~', '0'] else [c] := by
  induction key with
  | nil => rfl
  | cons c rest ih =>
    rw [escape, List.flatMap_cons, ← escape, List.flatMap_cons, ← ih, escapeChar]
    by_cases htilde : c = '~'
    · rw [if_pos htilde, if_pos htilde, List.cons_append, List.cons_append, replaceEscape,
        if_neg (by decide), List.nil_append, replaceEscape_of_ne (by decide)]
      rfl
    · rw [if_neg htilde, if_neg htilde]
      by_cases hslash : c = '/'
      · rw [if_pos hslash, List.cons_append, List.cons_append, replaceEscape, if_pos rfl, hslash]
        rfl
      · rw [if_neg hslash, List.singleton_append, replaceEscape_of_ne htilde]
        rfl

@[simp]
theorem replaceEscape_tilde (key : List Char) :
    replaceEscape '0' '~' (key.flatMap fun c => if c = '~' then ['~', '0'] else [c]) = key := by
  induction key with
  | nil => rfl
  | cons c rest ih =>
    rw [List.flatMap_cons]
    by_cases htilde : c = '~'
    · rw [if_pos htilde, List.cons_append, List.cons_append, replaceEscape, if_pos rfl,
        List.nil_append, ih, htilde]
    · rw [if_neg htilde, List.singleton_append, replaceEscape_of_ne htilde, ih]

@[simp]
theorem unescape_escape (key : List Char) : unescape (escape key) = key := by
  rw [unescape, replaceEscape_slash, replaceEscape_tilde]

@[simp]
theorem select?_ofKey (entries : List (Yaml × Yaml)) (key : String) :
    select? (.map entries) (ofKey key) = Yaml.lookup? entries key := by
  have htokens : tokens? (ofKey key).toList = some [escape key.toList] := by
    rw [ofKey, String.toList_ofList, tokens?, splitAt_of_not_mem (slash_not_mem_escape _)]
  have hstep : step? (.map entries) (escape key.toList) = Yaml.lookup? entries key := by
    rw [step?, unescape_escape, String.ofList_toList]
  rw [select?, htokens]
  change (step? (.map entries) (escape key.toList)).bind some = _
  rw [Option.bind_fun_some, hstep]

end LinkedApi.Pointer
