import LinkedApi.Proofs.Text.Split
import LinkedApi.Route

/-!
# Parameters of paths

Where the parameters of a path stand is told by a relation beside the function that converts them:
each brace either opens a parameter or is text. All parameters of a path are written with a colon in
one pass. The pass creates another parameter exactly where braces enclose a parameter beside nothing
but names and parameters, so that only paths without such nesting are settled by it.
-/

namespace LinkedApi.Route

open Text

/-- What can stand between the braces of a parameter. -/
def IsName (name : List Char) : Prop := name ≠ [] ∧ ∀ c ∈ name, endsName c = false

/-- What follows a brace that opens a parameter. -/
def Closes (cs : List Char) : Prop := ∃ name after, IsName name ∧ cs = name ++ '}' :: after

def HasParameter (cs : List Char) : Prop := ∃ before rest, Closes rest ∧ cs = before ++ '{' :: rest

/-- The second text is the first in the syntax of the router. -/
inductive Converts : List Char → List Char → Prop
  | nil : Converts [] []
  | plain {c : Char} {cs out : List Char} (hc : c ≠ '{') (hrest : Converts cs out) :
    Converts (c :: cs) (c :: out)
  | brace {cs out : List Char} (hopen : ¬Closes cs) (hrest : Converts cs out) :
    Converts ('{' :: cs) ('{' :: out)
  | parameter {name cs out : List Char} (hname : IsName name) (hrest : Converts cs out) :
    Converts ('{' :: (name ++ '}' :: cs)) (':' :: (name ++ out))

/-- A text of parameters and of characters that may stand in names. -/
inductive Flat : List Char → Prop
  | nil : Flat []
  | plain {c : Char} {cs : List Char} (hc : endsName c = false) (hrest : Flat cs) : Flat (c :: cs)
  | parameter {name cs : List Char} (hname : IsName name) (hrest : Flat cs) :
    Flat ('{' :: (name ++ '}' :: cs))

/-- Somewhere in a text braces enclose a parameter beside nothing but names and parameters. -/
def Nests (cs : List Char) : Prop :=
  ∃ before inner after, Flat inner ∧ HasParameter inner ∧
    cs = before ++ '{' :: (inner ++ '}' :: after)

/-! ## Names between braces -/

@[simp]
theorem endsName_open : endsName '{' = true := rfl

@[simp]
theorem endsName_close : endsName '}' = true := rfl

theorem ne_open_of_endsName {c : Char} (h : endsName c = false) : c ≠ '{' := by
  rintro rfl
  cases h

theorem open_not_mem {name : List Char} (h : ∀ c ∈ name, endsName c = false) : '{' ∉ name := by
  intro hmem
  cases h '{' hmem

theorem close_not_mem {name : List Char} (h : ∀ c ∈ name, endsName c = false) : '}' ∉ name := by
  intro hmem
  cases h '}' hmem

/-- Only a brace that closes a name makes it a parameter. -/
theorem not_closes_append {name rest : List Char} {c : Char}
    (hname : ∀ x ∈ name, endsName x = false) (hc : endsName c = true) (h : c = '}' → name = []) :
    ¬Closes (name ++ c :: rest) := by
  rintro ⟨other, after, hother, heq⟩
  obtain ⟨rfl, rfl, -⟩ := append_cons_inj_of_kind hname hother.2 hc endsName_close heq
  exact hother.1 (h rfl)

theorem not_closes_of_name {name : List Char} (hname : ∀ x ∈ name, endsName x = false) :
    ¬Closes name := by
  rintro ⟨other, after, -, rfl⟩
  exact close_not_mem hname (by simp)

/-- A brace without a partner ends a flat text. -/
theorem Flat.not_close {name cs : List Char} (hname : ∀ c ∈ name, endsName c = false)
    (h : Flat (name ++ '}' :: cs)) : False := by
  induction name with
  | nil =>
    cases h with
    | plain hc => cases hc
  | cons c name ih =>
    rw [List.forall_mem_cons] at hname
    rw [List.cons_append] at h
    generalize hcs : name ++ '}' :: cs = text at h
    cases h with
    | plain _ hrest => exact ih hname.2 (hcs ▸ hrest)
    | parameter => cases hname.1

theorem hasParameter_cons {c : Char} {cs : List Char} :
    HasParameter (c :: cs) ↔ c = '{' ∧ Closes cs ∨ HasParameter cs := by
  constructor
  · rintro ⟨before, rest, hcloses, heq⟩
    rcases List.cons_eq_append_iff.mp heq with ⟨rfl, hrest⟩ | ⟨before, rfl, hrest⟩
    · cases hrest
      exact .inl ⟨rfl, hcloses⟩
    · exact .inr ⟨before, rest, hcloses, hrest⟩
  · rintro (⟨rfl, hcloses⟩ | ⟨before, rest, hcloses, rfl⟩)
    · exact ⟨[], cs, hcloses, rfl⟩
    · exact ⟨c :: before, rest, hcloses, rfl⟩

/-- A text without opening braces is passed over. -/
theorem hasParameter_append {text cs : List Char} (htext : '{' ∉ text)
    (h : HasParameter (text ++ cs)) : HasParameter cs := by
  obtain ⟨before, rest, hcloses, heq⟩ := h
  obtain ⟨more, -, rfl⟩ := exists_append_of_not_mem htext heq
  exact ⟨more, rest, hcloses, rfl⟩

theorem nests_append {text cs : List Char} (htext : '{' ∉ text) (h : Nests (text ++ cs)) :
    Nests cs := by
  obtain ⟨before, inner, after, hflat, hinner, heq⟩ := h
  obtain ⟨more, -, rfl⟩ := exists_append_of_not_mem htext heq
  exact ⟨more, inner, after, hflat, hinner, rfl⟩

theorem nests_cons {c : Char} {cs : List Char} (h : Nests (c :: cs)) :
    (c = '{' ∧ ∃ inner after, Flat inner ∧ HasParameter inner ∧ cs = inner ++ '}' :: after) ∨
      Nests cs := by
  obtain ⟨before, inner, after, hflat, hinner, heq⟩ := h
  rcases List.cons_eq_append_iff.mp heq with ⟨rfl, hrest⟩ | ⟨before, rfl, hrest⟩
  · cases hrest
    exact .inl ⟨rfl, inner, after, hflat, hinner, rfl⟩
  · exact .inr ⟨before, inner, after, hflat, hinner, hrest⟩

theorem converts_plain {c : Char} {cs out : List Char} (hc : c ≠ '{')
    (h : Converts (c :: cs) out) : ∃ rest, Converts cs rest ∧ out = c :: rest := by
  generalize htext : c :: cs = text at h
  cases h with
  | nil => cases htext
  | plain _ hrest => cases htext; exact ⟨_, hrest, rfl⟩
  | brace => cases htext; exact absurd rfl hc
  | parameter => cases htext; exact absurd rfl hc

/-- A brace is text, or it opens a parameter that is written with a colon. -/
theorem converts_open {cs out : List Char} (h : Converts ('{' :: cs) out) :
    (¬Closes cs ∧ ∃ rest, Converts cs rest ∧ out = '{' :: rest) ∨
      ∃ name after rest, IsName name ∧ cs = name ++ '}' :: after ∧ Converts after rest ∧
        out = ':' :: (name ++ rest) := by
  generalize htext : '{' :: cs = text at h
  cases h with
  | nil => cases htext
  | plain hc => cases htext; exact absurd rfl hc
  | brace hopen hrest => cases htext; exact .inl ⟨hopen, _, hrest, rfl⟩
  | parameter hname hrest => cases htext; exact .inr ⟨_, _, _, hname, rfl, hrest, rfl⟩

theorem Nests.append {cs : List Char} (h : Nests cs) (text : List Char) : Nests (text ++ cs) := by
  obtain ⟨before, inner, after, hflat, hinner, rfl⟩ := h
  exact ⟨text ++ before, inner, after, hflat, hinner, by rw [List.append_assoc]⟩

/-! ## One pass -/

theorem Converts.name {name cs out : List Char} (hname : ∀ c ∈ name, endsName c = false)
    (h : Converts cs out) : Converts (name ++ cs) (name ++ out) := by
  induction name with
  | nil => exact h
  | cons c name ih =>
    rw [List.forall_mem_cons] at hname
    exact .plain (ne_open_of_endsName hname.1) (ih hname.2)

/-- The text that has been read but not written yet. -/
def heldBack : Option (List Char) → List Char
  | none => []
  | some name => '{' :: name.reverse

/-- What is read after an open brace is converted with what was held back. -/
theorem converts_heldBack (cs : List Char) {opened : Option (List Char)}
    (h : ∀ name ∈ opened, ∀ c ∈ name, endsName c = false) :
    Converts (heldBack opened ++ cs) (convertParameters opened cs) := by
  induction cs generalizing opened with
  | nil =>
    cases opened with
    | none => exact .nil
    | some name =>
      have hname : ∀ c ∈ name.reverse, endsName c = false := by simpa using h name rfl
      have hrest := Converts.name hname .nil
      rw [List.append_nil] at hrest
      simpa [heldBack, convertParameters] using Converts.brace (not_closes_of_name hname) hrest
  | cons c cs ih =>
    have hnone : Converts cs (convertParameters none cs) := @ih none (by simp)
    have hsome : Converts ('{' :: cs) (convertParameters (some []) cs) := @ih (some []) (by simp)
    cases opened with
    | none =>
      rw [convertParameters]
      split
      · next hc =>
        subst hc
        exact hsome
      · next hc => exact .plain hc hnone
    | some name =>
      have hname : ∀ c ∈ name.reverse, endsName c = false := by simpa using h name rfl
      rw [convertParameters]
      split
      · next hc =>
        obtain ⟨rfl, hne⟩ := hc
        exact .parameter ⟨by simpa using hne, hname⟩ hnone
      next hclose =>
      split
      · next hc =>
        subst hc
        exact .brace (not_closes_append hname endsName_open nofun) (.name hname hsome)
      next hopen =>
      split
      · next hends =>
        have hempty : c = '}' → name.reverse = [] := by
          rintro rfl
          simpa using hclose
        exact .brace (not_closes_append hname hends hempty) (.name hname (.plain hopen hnone))
      · next hends =>
        have hlonger := @ih (some (c :: name)) (by simpa [hends] using h name rfl)
        simpa [heldBack] using hlonger

/-- A text is converted as a whole. -/
theorem converts (cs : List Char) : Converts cs (convertParameters none cs) :=
  @converts_heldBack cs none (by simp)

/-- A text without parameters is kept. -/
theorem Converts.eq_of_not_hasParameter {cs out : List Char} (h : Converts cs out)
    (hfree : ¬HasParameter cs) : out = cs := by
  induction h with
  | nil => rfl
  | plain hc _ ih =>
    rw [ih fun hrest => hfree (hasParameter_cons.mpr (.inr hrest))]
  | brace hopen _ ih =>
    rw [ih fun hrest => hfree (hasParameter_cons.mpr (.inr hrest))]
  | parameter hname _ =>
    exact absurd (hasParameter_cons.mpr (.inl ⟨rfl, _, _, hname, rfl⟩)) hfree

/-- Each parameter loses one of its braces. -/
theorem Converts.length_le {cs out : List Char} (h : Converts cs out) :
    out.length ≤ cs.length ∧ (HasParameter cs → out.length < cs.length) := by
  induction h with
  | nil => simp [HasParameter]
  | plain hc _ ih =>
    simp only [hasParameter_cons, hc, false_and, false_or, List.length_cons]
    exact ⟨by omega, fun hrest => by have := ih.2 hrest; omega⟩
  | brace hopen _ ih =>
    simp only [hasParameter_cons, hopen, and_false, false_or, List.length_cons]
    exact ⟨by omega, fun hrest => by have := ih.2 hrest; omega⟩
  | parameter _ _ ih =>
    simp only [List.length_cons, List.length_append]
    exact ⟨by omega, fun _ => by omega⟩

/-- A pass changes nothing exactly where it finds no parameter. -/
theorem convertParameters_eq_self_iff (cs : List Char) :
    convertParameters none cs = cs ↔ ¬HasParameter cs := by
  constructor
  · intro h hparameter
    have hlt := (converts cs).length_le.2 hparameter
    rw [h] at hlt
    exact Nat.lt_irrefl _ hlt
  · exact (converts cs).eq_of_not_hasParameter

theorem Converts.mem {cs out : List Char} (h : Converts cs out) {c : Char} (hc : c ∈ out) :
    c = ':' ∨ c ∈ cs := by
  induction h with
  | nil => exact .inr hc
  | plain | brace => grind
  | parameter => grind

/-! ## What a pass leaves -/

/-- Names that a pass leaves before a closing brace were a flat text before the same brace. -/
theorem Converts.exists_flat {cs out : List Char} (h : Converts cs out) {name after : List Char}
    (hname : ∀ c ∈ name, endsName c = false) (hout : out = name ++ '}' :: after) :
    ∃ inner rest, Flat inner ∧ cs = inner ++ '}' :: rest ∧ (inner = name ∨ HasParameter inner) := by
  induction h generalizing name with
  | nil => simp at hout
  | @plain c cs out hc hrest ih =>
    rcases List.cons_eq_append_iff.mp hout with ⟨rfl, hout⟩ | ⟨name, rfl, hmore⟩
    · cases hout
      exact ⟨[], cs, .nil, rfl, .inl rfl⟩
    · rw [List.forall_mem_cons] at hname
      obtain ⟨inner, rest, hflat, rfl, hinner⟩ := ih hname.2 hmore
      refine ⟨c :: inner, rest, .plain hname.1 hflat, rfl, ?_⟩
      rcases hinner with rfl | hinner
      · exact .inl rfl
      · exact .inr (hasParameter_cons.mpr (.inr hinner))
  | brace hopen hrest =>
    rcases List.cons_eq_append_iff.mp hout with ⟨rfl, hout⟩ | ⟨name, rfl, -⟩
    · cases hout
    · cases hname '{' List.mem_cons_self
  | @parameter first cs out hfirst hrest ih =>
    obtain ⟨more, rfl, hmore⟩ :=
      exists_append_of_not_mem (List.not_mem_cons_of_ne_of_not_mem (by decide)
        (close_not_mem hfirst.2)) hout
    obtain ⟨inner, rest, hflat, rfl, -⟩ := ih (fun c hc => hname c (by simp [hc])) hmore
    refine ⟨'{' :: (first ++ '}' :: inner), rest, .parameter hfirst hflat, by simp, .inr ?_⟩
    exact hasParameter_cons.mpr (.inl ⟨rfl, first, inner, hfirst, rfl⟩)

/-- A pass leaves a parameter only where parameters nest. -/
theorem Converts.nests {cs out : List Char} (h : Converts cs out) (hout : HasParameter out) :
    Nests cs := by
  induction h with
  | nil => simp [HasParameter] at hout
  | @plain c cs out hc hrest ih =>
    rw [hasParameter_cons] at hout
    exact (ih (hout.resolve_left fun hopen => hc hopen.1)).append [c]
  | @brace cs out hopen hrest ih =>
    rcases hasParameter_cons.mp hout with ⟨-, name, after, hname, hrest'⟩ | hout
    · obtain ⟨inner, rest, hflat, rfl, rfl | hinner⟩ := hrest.exists_flat hname.2 hrest'
      · exact absurd ⟨inner, rest, hname, rfl⟩ hopen
      · exact ⟨[], inner, rest, hflat, hinner, rfl⟩
    · exact (ih hout).append ['{']
  | @parameter name cs out hname hrest ih =>
    have hpassed : '{' ∉ ':' :: name :=
      List.not_mem_cons_of_ne_of_not_mem (by decide) (open_not_mem hname.2)
    have hnests := (ih (hasParameter_append hpassed hout)).append ('{' :: (name ++ ['}']))
    simpa using hnests

/-- A pass leaves names of a flat text, and goes on after it. -/
theorem Flat.converts_append {inner : List Char} (h : Flat inner) {cs out : List Char}
    (hout : Converts (inner ++ cs) out) :
    ∃ name rest, out = name ++ rest ∧ (∀ c ∈ name, endsName c = false) ∧
      (inner ≠ [] → name ≠ []) ∧ Converts cs rest := by
  induction h generalizing out with
  | nil => exact ⟨[], out, rfl, by simp, by simp, hout⟩
  | @plain c inner hc hrest ih =>
    obtain ⟨out, hmore, rfl⟩ := converts_plain (ne_open_of_endsName hc) hout
    obtain ⟨name, rest, rfl, hname, -, hcs⟩ := ih hmore
    exact ⟨c :: name, rest, rfl, List.forall_mem_cons.mpr ⟨hc, hname⟩, by simp, hcs⟩
  | @parameter first inner hfirst hrest ih =>
    simp only [List.cons_append, List.append_assoc] at hout
    rcases converts_open hout with ⟨hopen, -⟩ | ⟨name, after, out, hname, hsame, hafter, rfl⟩
    · exact absurd ⟨first, _, hfirst, rfl⟩ hopen
    · obtain ⟨rfl, -, rfl⟩ :=
        append_cons_inj_of_kind hfirst.2 hname.2 endsName_close endsName_close hsame
      obtain ⟨more, rest, rfl, hmore, -, hcs⟩ := ih hafter
      refine ⟨':' :: (first ++ more), rest, by simp, ?_, by simp, hcs⟩
      simp only [List.forall_mem_cons, List.forall_mem_append]
      exact ⟨rfl, hfirst.2, hmore⟩

/-- The braces around nested parameters are those of a parameter after a pass. -/
theorem Converts.hasParameter_of_nests {cs out : List Char} (h : Converts cs out)
    (hnests : Nests cs) : HasParameter out := by
  induction h with
  | nil => simp [Nests] at hnests
  | @plain c cs out hc hrest ih =>
    exact hasParameter_cons.mpr
      (.inr (ih ((nests_cons hnests).resolve_left fun hopen => hc hopen.1)))
  | @brace cs out hopen hrest ih =>
    rcases nests_cons hnests with ⟨-, inner, after, hflat, hinner, rfl⟩ | hnests
    · have hne : inner ≠ [] := by
        rintro rfl
        simp [HasParameter] at hinner
      obtain ⟨name, rest, rfl, hname, hfilled, hafter⟩ := hflat.converts_append hrest
      cases hafter with
      | plain _ hafter =>
        exact hasParameter_cons.mpr (.inl ⟨rfl, name, _, ⟨hfilled hne, hname⟩, rfl⟩)
    · exact hasParameter_cons.mpr (.inr (ih hnests))
  | @parameter name cs out hname hrest ih =>
    have hpassed : '{' ∉ name ++ ['}'] := by simp [open_not_mem hname.2]
    have hout : Nests cs → HasParameter (':' :: (name ++ out)) := by
      intro hcs
      obtain ⟨before, rest, hcloses, hbefore⟩ := ih hcs
      exact ⟨':' :: (name ++ before), rest, hcloses, by simp [hbefore]⟩
    rcases nests_cons hnests with ⟨-, inner, after, hflat, hinner, hsame⟩ | hnests
    · -- The parameter within the braces opens after the name and its brace have been read.
      obtain ⟨before, rest, -, rfl⟩ := hinner
      have htext : (name ++ ['}']) ++ cs = before ++ '{' :: (rest ++ '}' :: after) := by
        simpa using hsame
      obtain ⟨more, rfl, -⟩ := exists_append_of_not_mem hpassed htext
      simp only [List.append_assoc, List.singleton_append] at hflat
      exact hflat.not_close hname.2 |>.elim
    · refine hout (nests_append hpassed ?_)
      simpa using hnests

/-! ## Paths -/

@[simp]
theorem toList_routerPath (declared : String) :
    (routerPath declared).toList = convertParameters none (unescape declared.toList) := by
  rw [routerPath, String.toList_ofList]

theorem backslash_not_mem_routerPath (declared : String) :
    '\\' ∉ (routerPath declared).toList := by
  intro hmem
  rw [toList_routerPath] at hmem
  rcases (converts _).mem hmem with h | h
  · cases h
  · simp [unescape] at h

theorem unescape_eq_self {cs : List Char} (h : '\\' ∉ cs) : unescape cs = cs := by
  refine List.filter_eq_self.mpr fun c hc => ?_
  simp only [ne_eq, decide_eq_true_eq]
  rintro rfl
  exact h hc

/-- All parameters of a path are written with a colon, and no backslash is left. Only parameters
that are nested in others make parameters of what is left, and without these a second pass changes
nothing. -/
theorem settled_unless_nested (declared : String) :
    Converts (unescape declared.toList) (routerPath declared).toList ∧
      '\\' ∉ (routerPath declared).toList ∧
      (routerPath (routerPath declared) = routerPath declared ↔
        ¬HasParameter (routerPath declared).toList) ∧
      (HasParameter (routerPath declared).toList ↔ Nests (unescape declared.toList)) := by
  have hfree := backslash_not_mem_routerPath declared
  have hpass : Converts (unescape declared.toList) (routerPath declared).toList := by
    rw [toList_routerPath]
    exact converts _
  refine ⟨hpass, hfree, ?_, hpass.nests, hpass.hasParameter_of_nests⟩
  rw [← String.toList_inj, toList_routerPath (routerPath declared), unescape_eq_self hfree]
  exact convertParameters_eq_self_iff _

/-- The braces around a parameter with a letter after it make another parameter. -/
theorem nested_parameter_left :
    routerPath "\x7b\x7ba\x7db\x7d" = "\x7b:ab\x7d" ∧
      HasParameter (routerPath "\x7b\x7ba\x7db\x7d").toList ∧
      routerPath (routerPath "\x7b\x7ba\x7db\x7d") ≠ routerPath "\x7b\x7ba\x7db\x7d" := by
  have hleft : HasParameter ['{', ':', 'a', 'b', '}'] :=
    ⟨[], [':', 'a', 'b', '}'], ⟨[':', 'a', 'b'], [], ⟨by simp, by simp [endsName]⟩, rfl⟩, rfl⟩
  have hpass : (routerPath "\x7b\x7ba\x7db\x7d").toList = ['{', ':', 'a', 'b', '}'] := by
    decide +kernel
  exact ⟨by decide +kernel, hpass ▸ hleft, by decide +kernel⟩

end LinkedApi.Route
