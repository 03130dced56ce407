import LinkedApi.Generation.PipeModules
import LinkedApi.Proofs.Validation

/-!
# Names of pipe modules

A pipe module is bound under its name at the top level of the generated module, whose code is strict
and stands inside a wrapper. The names that can be bound there are told by the grammar of the
generated language. A chain is accepted when its names are among these, or are one of the two names
that are not reserved but that strict code may not bind. A name for which a chain is refused cannot
be bound.
-/

namespace LinkedApi

open Outcome Text

namespace Text

/-! ## Names that can be bound -/

/-- What a name may begin with; of the letters only those of ASCII. -/
def IsNameStart (c : Char) : Prop := 'A' ≤ c ∧ c ≤ 'Z' ∨ 'a' ≤ c ∧ c ≤ 'z' ∨ c = '_' ∨ c = '$'

def IsNamePart (c : Char) : Prop := IsNameStart c ∨ '0' ≤ c ∧ c ≤ '9'

def alwaysReserved : List String :=
  ["await", "break", "case", "catch", "class", "const", "continue", "debugger", "default",
    "delete", "do", "else", "enum", "export", "extends", "false", "finally", "for", "function",
    "if", "import", "in", "instanceof", "new", "null", "return", "super", "switch", "this", "throw",
    "true", "try", "typeof", "var", "void", "while", "with", "yield"]

def strictlyReserved : List String :=
  ["implements", "interface", "let", "package", "private", "protected", "public", "static"]

/-- The names that are not reserved, but that strict code may not bind. -/
def strictlyUnbindable : List String := ["arguments", "eval"]

/-- Whether the code of a module begins with the directive that makes it strict. -/
def isStrict (code : String) : Bool := "'use strict';".toList.isPrefixOf code.toList

/-- The code of a module can bind a name at its top level. -/
structure CanBind (code name : String) : Prop where
  form : ∃ c rest, name.toList = c :: rest ∧ IsNameStart c ∧ ∀ x ∈ rest, IsNamePart x
  reserved : name ∉ alwaysReserved
  strict : isStrict code → name ∉ strictlyReserved ∧ name ∉ strictlyUnbindable
  wrapper : name ∉ wrapperBindings

/-- A name may begin with a letter, an underscore or a dollar sign. -/
theorem isIdentifierStart_iff {c : Char} : isIdentifierStart c = true ↔ IsNameStart c := by
  simp only [isIdentifierStart, isLetter, IsNameStart, Bool.or_eq_true, Bool.and_eq_true,
    decide_eq_true_eq]
  tauto

theorem isIdentifierChar_iff {c : Char} : isIdentifierChar c = true ↔ IsNamePart c := by
  simp only [isIdentifierChar, IsNamePart, Bool.or_eq_true, Bool.and_eq_true, decide_eq_true_eq,
    isIdentifierStart_iff]

theorem hasIdentifierForm_iff {cs : List Char} :
    hasIdentifierForm cs = true ↔
      ∃ c rest, cs = c :: rest ∧ IsNameStart c ∧ ∀ x ∈ rest, IsNamePart x := by
  cases cs with
  | nil => simp [hasIdentifierForm]
  | cons c rest =>
    simp [hasIdentifierForm, isIdentifierStart_iff, isIdentifierChar_iff]

/-- The reserved words are those of all code and those of strict code. -/
theorem mem_reservedWords_iff {word : String} :
    word ∈ reservedWords ↔ word ∈ alwaysReserved ∨ word ∈ strictlyReserved := by
  have hsplit : ∀ word ∈ reservedWords, word ∈ alwaysReserved ∨ word ∈ strictlyReserved := by
    decide +kernel
  have hjoin : ∀ word ∈ alwaysReserved ++ strictlyReserved, word ∈ reservedWords := by
    decide +kernel
  exact ⟨hsplit word, fun h => hjoin word (List.mem_append.mpr h)⟩

end Text

namespace Writers.PipeModules

/-- The header makes the generated module strict, whatever follows it. -/
theorem isStrict_header (rest : String) : isStrict (header ++ rest) = true := by
  rw [isStrict, List.isPrefixOf_iff_prefix, String.toList_append]
  exact List.IsPrefix.trans (by decide) (List.prefix_append _ _)

end Writers.PipeModules

namespace Operation

variable {op : Operation} {name : String}

/-- The names of pipe modules are those that can be bound, and two more. -/
theorem canBind_iff (rest : String) :
    CanBind (Writers.PipeModules.header ++ rest) name ↔
      isPipeName name = true ∧ name ∉ strictlyUnbindable := by
  have hstrict := Writers.PipeModules.isStrict_header rest
  simp only [isPipeName, isIdentifier, isWrapperBinding, Bool.and_eq_true, Bool.not_eq_true',
    hasIdentifierForm_iff, List.contains_eq_mem, decide_eq_false_iff_not, mem_reservedWords_iff]
  constructor
  · intro h
    obtain ⟨hreserved, hunbindable⟩ := h.strict hstrict
    exact ⟨⟨⟨h.form, not_or.mpr ⟨h.reserved, hreserved⟩⟩, h.wrapper⟩, hunbindable⟩
  · rintro ⟨⟨⟨hform, hreserved⟩, hwrapper⟩, hunbindable⟩
    obtain ⟨halways, hstrictly⟩ := not_or.mp hreserved
    exact ⟨hform, halways, fun _ => ⟨hstrictly, hunbindable⟩, hwrapper⟩

theorem isPipeName_of_unbindable (h : name ∈ strictlyUnbindable) : isPipeName name = true := by
  have hall : ∀ name ∈ strictlyUnbindable, isPipeName name = true := by decide +kernel
  exact hall name h

/-- A name is accepted that can be bound, or that only strict code does not bind. -/
theorem isPipeName_iff (rest : String) :
    isPipeName name = true ↔
      CanBind (Writers.PipeModules.header ++ rest) name ∨ name ∈ strictlyUnbindable := by
  rw [canBind_iff]
  constructor
  · intro h
    by_cases hname : name ∈ strictlyUnbindable
    · exact .inr hname
    · exact .inl ⟨h, hname⟩
  · rintro (h | h)
    · exact h.1
    · exact isPipeName_of_unbindable h

/-! ## Chains -/

section

variable {method path : String}

theorem pipeField_ne_invalidIdentifier (entry : Yaml) (field pipe : String) :
    op.pipeField entry field pipe ≠ .error (.invalidIdentifier name method path) := by
  unfold pipeField malformed
  split <;> nofun

theorem pipeSource_ne_invalidIdentifier (pipe : String) (entry : Yaml) :
    op.pipeSource pipe entry ≠ .error (.invalidIdentifier name method path) := by
  unfold pipeSource
  split
  · nofun
  · exact pipeField_ne_invalidIdentifier _ _ _

theorem pipesOfMapping_ne_invalidIdentifier (entries : List (Yaml × Yaml)) :
    op.pipesOfMapping entries ≠ .error (.invalidIdentifier name method path) := by
  induction entries with
  | nil => nofun
  | cons entry rest ih =>
    intro h
    rw [pipesOfMapping_cons] at h
    split at h
    · cases h
    rcases bind_eq_error.mp h with h | ⟨source, -, h⟩
    · exact pipeSource_ne_invalidIdentifier _ _ h
    rcases bind_eq_error.mp h with h | ⟨more, -, h⟩
    · exact ih h
    · cases h

theorem pipesOfSequence_ne_invalidIdentifier (items : List Yaml) (known : List PipeReference) :
    op.pipesOfSequence known items ≠ .error (.invalidIdentifier name method path) := by
  induction items generalizing known with
  | nil => nofun
  | cons entry rest ih =>
    intro h
    rcases bind_eq_error.mp h with h | ⟨name, -, h⟩
    · exact pipeField_ne_invalidIdentifier _ _ _ h
    rcases bind_eq_error.mp h with h | ⟨source, -, h⟩
    · exact pipeField_ne_invalidIdentifier _ _ _ h
    dsimp only at h
    split at h
    · cases h
    · exact ih _ h

/-- Names are looked at once the whole chain has been read. -/
theorem readPipes_ne_invalidIdentifier :
    op.readPipes ≠ .error (.invalidIdentifier name method path) := by
  unfold readPipes
  split
  · nofun
  · nofun
  · exact pipesOfMapping_ne_invalidIdentifier _
  · exact pipesOfSequence_ne_invalidIdentifier _ _
  · nofun

/-- A chain is accepted when it can be read and all its names are. -/
theorem pipes_eq_ok_iff {refs : List PipeReference} :
    op.pipes = .ok refs ↔ op.readPipes = .ok refs ∧ ∀ r ∈ refs, isPipeName r.name := by
  refine ⟨pipes_ok, ?_⟩
  rintro ⟨hread, hnames⟩
  have hnone : refs.find? (fun r => !isPipeName r.name) = none := by simpa using hnames
  simp only [pipes_eq, hread, bind, Except.bind, hnone]
  rfl

/-- The first name that is no name of a pipe module is told. -/
theorem pipes_eq_invalidIdentifier_iff :
    op.pipes = .error (.invalidIdentifier name method path) ↔
      ∃ before r after, op.readPipes = .ok (before ++ r :: after) ∧
        (∀ q ∈ before, isPipeName q.name) ∧ isPipeName r.name = false ∧
        name = r.name ∧ method = op.method ∧ path = op.path := by
  rw [pipes_eq]
  constructor
  · intro h
    rcases bind_eq_error.mp h with h | ⟨read, hread, h⟩
    · exact absurd h readPipes_ne_invalidIdentifier
    split at h
    · next r hfound =>
      cases h
      obtain ⟨hr, before, after, rfl, hbefore⟩ := List.find?_eq_some_iff_append.mp hfound
      exact ⟨before, r, after, hread, by simpa using hbefore, by simpa using hr, rfl, rfl, rfl⟩
    · cases h
  · rintro ⟨before, r, after, hread, hbefore, hr, rfl, rfl, rfl⟩
    have hfound : (before ++ r :: after).find? (fun r => !isPipeName r.name) = some r :=
      List.find?_eq_some_iff_append.mpr
        ⟨by simp [hr], before, after, rfl, by simpa using hbefore⟩
    simp only [hread, bind, Except.bind, hfound]
    rfl

end

/-- A chain is accepted exactly when it can be read and each of its names can be bound in the
generated module or is one of the two names that only strict code may not bind. Of a chain that is
refused for a name, the first that is neither is told. -/
theorem pipe_names_decided (op : Operation) (code : String) :
    let text := Writers.PipeModules.header ++ code
    (∀ refs, op.pipes = .ok refs ↔ op.readPipes = .ok refs ∧
      ∀ r ∈ refs, CanBind text r.name ∨ r.name ∈ strictlyUnbindable) ∧
    (∀ refs, op.pipes = .ok refs → ∀ r ∈ refs,
      (CanBind text r.name ↔ r.name ∉ strictlyUnbindable)) ∧
    ∀ name method path, op.pipes = .error (.invalidIdentifier name method path) ↔
      ∃ before r after, op.readPipes = .ok (before ++ r :: after) ∧
        (∀ q ∈ before, CanBind text q.name ∨ q.name ∈ strictlyUnbindable) ∧
        ¬(CanBind text r.name ∨ r.name ∈ strictlyUnbindable) ∧
        name = r.name ∧ method = op.method ∧ path = op.path := by
  intro text
  have haccepted : ∀ name, isPipeName name = true ↔
      CanBind text name ∨ name ∈ strictlyUnbindable := fun _ => isPipeName_iff code
  refine ⟨fun refs => ?_, fun refs hrefs r hr => ?_, fun name method path => ?_⟩
  · simp only [pipes_eq_ok_iff, haccepted]
  · rw [canBind_iff code]
    exact and_iff_right ((pipes_ok hrefs).2 r hr)
  · simp only [pipes_eq_invalidIdentifier_iff, haccepted, ← Bool.not_eq_true]

def chained (name : String) : Operation where
  path := "/a"
  method := "get"
  node := .map [(.str "postprocessing", .map [(.str name, .str "http://x/a.js")])]

theorem pipe_names_decided_of_letters :
    (chained "sort_2").pipes = .ok [⟨"sort_2", "http://x/a.js"⟩] ∧
      CanBind (Writers.PipeModules.header ++ "const sort_2 = (d) => d;\n") "sort_2" := by
  have hpipes : (chained "sort_2").pipes = .ok [⟨"sort_2", "http://x/a.js"⟩] := by decide +kernel
  obtain ⟨-, hbound, -⟩ := pipe_names_decided (chained "sort_2") "const sort_2 = (d) => d;\n"
  exact ⟨hpipes, (hbound _ hpipes _ List.mem_cons_self).mpr (by decide)⟩

/-- A chain may have a name that the generated module cannot bind. -/
theorem pipe_name_unbindable :
    (chained "eval").pipes = .ok [⟨"eval", "http://x/a.js"⟩] ∧
      ¬CanBind Writers.PipeModules.header "eval" := by
  refine ⟨by decide +kernel, fun h => ?_⟩
  exact (h.strict (by decide)).2 (by decide)

end Operation

end LinkedApi
