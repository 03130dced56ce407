import LinkedApi.Proofs.Resolution.Address
import Mathlib.Data.List.Forall2

/-!
# Pointers that select

A pointer that selects a node is empty or goes from slash to slash along a path to this node. Its
tokens name the steps of the path, and most steps have more than one name. A tilde that stands
before neither `0` nor `1` is taken as it is, and an index may have a plus sign and leading zeros.
One pointer of each path is free of these.
-/

namespace LinkedApi.Pointer

open Text

/-! ## Tokens -/

/-- Each tilde stands before a zero or a one. -/
def TildesEscaped : List Char → Prop
  | [] => True
  | c :: rest => (c = '~' → rest.head? = some '0' ∨ rest.head? = some '1') ∧ TildesEscaped rest

/-- How a token is read as a key, from left to right. A tilde before another character is taken as
it is. -/
inductive Unescapes : List Char → List Char → Prop where
  | nil : Unescapes [] []
  | slash {rest key : List Char} (h : Unescapes rest key) :
      Unescapes ('~' :: '1' :: rest) ('/' :: key)
  | tilde {rest key : List Char} (h : Unescapes rest key) :
      Unescapes ('~' :: '0' :: rest) ('~' :: key)
  | plain {c : Char} {rest key : List Char}
      (hplain : c = '~' → rest.head? ≠ some '0' ∧ rest.head? ≠ some '1')
      (h : Unescapes rest key) : Unescapes (c :: rest) (c :: key)

/-- A token names a key, or an index whose digits may stand after a plus sign. -/
inductive Names : List Char → Step → Prop where
  | key {token : List Char} {key : String} (h : Unescapes token key.toList) :
      Names token (.key key)
  | index {token digits : List Char} (hsign : token = digits ∨ token = '+' :: digits)
      (hne : digits ≠ []) (hdigits : ∀ c ∈ digits, isDigit c = true) :
      Names token (.index (Nat.ofDigitChars 10 digits 0))

/-- A token that is applied to a sequence is zero, or digits without a leading zero. -/
def IsPlain (token : List Char) : Step → Prop
  | .key _ => True
  | .index _ => token ≠ [] ∧ (∀ c ∈ token, isDigit c = true) ∧ HasNoLeadingZero token

def HasTokens (pointer : String) (tokens : List (List Char)) : Prop :=
  pointer.toList = tokens.flatMap ('/' :: ·) ∧ ∀ token ∈ tokens, '/' ∉ token

/-- The tokens of a pointer name the steps of a path. -/
def Takes (pointer : String) (path : List Step) : Prop :=
  ∃ tokens, HasTokens pointer tokens ∧ List.Forall₂ Names tokens path

/-- A pointer is written along a path as the grammar of pointers has it. -/
def Conforms (pointer : String) (path : List Step) : Prop :=
  TildesEscaped pointer.toList ∧
    ∃ tokens, HasTokens pointer tokens ∧ List.Forall₂ IsPlain tokens path

/-! ## Escaped tildes -/

theorem tildesEscaped_of_not_mem {cs : List Char} (h : '~' ∉ cs) : TildesEscaped cs := by
  induction cs with
  | nil => trivial
  | cons c rest ih =>
    obtain ⟨hc, hrest⟩ := List.ne_and_not_mem_of_not_mem_cons h
    exact ⟨fun hsame => absurd hsame.symm hc, ih hrest⟩

@[simp]
theorem tildesEscaped_slash (cs : List Char) : TildesEscaped ('/' :: cs) ↔ TildesEscaped cs :=
  and_iff_right fun h => absurd h (by decide)

/-- An escape does not reach over a slash. -/
theorem tildesEscaped_append (before after : List Char) :
    TildesEscaped (before ++ '/' :: after) ↔ TildesEscaped before ∧ TildesEscaped after := by
  induction before with
  | nil => exact (tildesEscaped_slash after).trans (and_iff_right trivial).symm
  | cons c rest ih =>
    have hhead : ∀ digit, digit ≠ '/' →
        ((rest ++ '/' :: after).head? = some digit ↔ rest.head? = some digit) := by
      intro digit hdigit
      cases rest with
      | nil => simp [hdigit.symm]
      | cons => rfl
    rw [List.cons_append, TildesEscaped, TildesEscaped, ih, hhead '0' (by decide),
      hhead '1' (by decide), and_assoc]

@[simp]
theorem tildesEscaped_flatMap {tokens : List (List Char)} :
    TildesEscaped (tokens.flatMap ('/' :: ·)) ↔ ∀ token ∈ tokens, TildesEscaped token := by
  induction tokens with
  | nil => exact iff_of_true trivial nofun
  | cons token rest ih =>
    rw [List.forall_mem_cons, List.flatMap_cons, List.cons_append, tildesEscaped_slash]
    cases rest with
    | nil => simp
    | cons next rest =>
      rw [← ih, List.flatMap_cons, List.cons_append, tildesEscaped_append, tildesEscaped_slash]

/-! ## Keys -/

theorem head?_replaceEscape {cs : List Char}
    (h : (replaceEscape '1' '/' cs).head? = some '0') : cs.head? = some '0' := by
  cases cs with
  | nil => cases h
  | cons c rest =>
    by_cases hc : c = '~'
    · subst hc
      cases rest with
      | nil => cases h
      | cons d rest =>
        rw [replaceEscape] at h
        split at h <;> cases h
    · rwa [replaceEscape_of_ne hc] at h

theorem replaceEscape_tilde_of_head {digit by' : Char} {rest : List Char}
    (h : rest.head? ≠ some digit) :
    replaceEscape digit by' ('~' :: rest) = '~' :: replaceEscape digit by' rest := by
  cases rest with
  | nil => rfl
  | cons d rest =>
    have hd : d ≠ digit := fun hsame => h (congrArg some hsame)
    rw [replaceEscape, if_neg hd]

/-- The two replacements read a token in one go. -/
theorem Unescapes.unescape {token key : List Char} (h : Unescapes token key) :
    unescape token = key := by
  induction h with
  | nil => rfl
  | slash _ ih =>
    rw [Pointer.unescape, replaceEscape, if_pos rfl, replaceEscape_of_ne (by decide)]
    exact congrArg ('/' :: ·) ih
  | @tilde rest key _ ih =>
    have hzero : replaceEscape '1' '/' ('0' :: rest) = '0' :: replaceEscape '1' '/' rest :=
      replaceEscape_of_ne (by decide) rest
    rw [Pointer.unescape, replaceEscape, if_neg (by decide), hzero, replaceEscape, if_pos rfl]
    exact congrArg ('~' :: ·) ih
  | @plain c rest key hplain _ ih =>
    by_cases hc : c = '~'
    · subst hc
      obtain ⟨hzero, hone⟩ := hplain rfl
      rw [Pointer.unescape, replaceEscape_tilde_of_head hone,
        replaceEscape_tilde_of_head (mt head?_replaceEscape hzero)]
      exact congrArg ('~' :: ·) ih
    · rw [Pointer.unescape, replaceEscape_of_ne hc, replaceEscape_of_ne hc]
      exact congrArg (c :: ·) ih

/-- Every token is read as some key. -/
theorem exists_unescapes (token : List Char) : ∃ key, Unescapes token key := by
  induction token with
  | nil => exact ⟨[], .nil⟩
  | cons c rest ih =>
    -- A digit that follows a tilde has been read as it is, and is taken back.
    obtain ⟨key, hkey⟩ := ih
    by_cases hzero : c = '~' ∧ rest.head? = some '0'
    · obtain ⟨rfl, hzero⟩ := hzero
      obtain ⟨rest, rfl⟩ := List.head?_eq_some_iff.mp hzero
      cases hkey with
      | plain _ h => exact ⟨_, .tilde h⟩
    by_cases hone : c = '~' ∧ rest.head? = some '1'
    · obtain ⟨rfl, hone⟩ := hone
      obtain ⟨rest, rfl⟩ := List.head?_eq_some_iff.mp hone
      cases hkey with
      | plain _ h => exact ⟨_, .slash h⟩
    · exact ⟨_, .plain (fun hc => ⟨fun h => hzero ⟨hc, h⟩, fun h => hone ⟨hc, h⟩⟩) hkey⟩

@[simp]
theorem unescapes_iff {token key : List Char} : Unescapes token key ↔ unescape token = key := by
  refine ⟨Unescapes.unescape, ?_⟩
  rintro rfl
  obtain ⟨key, hkey⟩ := exists_unescapes token
  exact hkey.unescape ▸ hkey

/-- A token that is read as a key is this key's own token when its tildes are escaped. -/
theorem Unescapes.escaped_iff {token key : List Char} (h : Unescapes token key)
    (hslash : '/' ∉ token) : TildesEscaped token ↔ token = escape key := by
  induction h with
  | nil => exact iff_of_true trivial rfl
  | @slash rest key _ ih =>
    have hrest : '/' ∉ rest := fun hmem => hslash (by simp [hmem])
    have hescape : escape ('/' :: key) = '~' :: '1' :: escape key := rfl
    simp [TildesEscaped, hescape, ih hrest]
  | @tilde rest key _ ih =>
    have hrest : '/' ∉ rest := fun hmem => hslash (by simp [hmem])
    have hescape : escape ('~' :: key) = '~' :: '0' :: escape key := rfl
    simp [TildesEscaped, hescape, ih hrest]
  | @plain c rest key hplain _ ih =>
    obtain ⟨hc, hrest⟩ := List.ne_and_not_mem_of_not_mem_cons hslash
    by_cases htilde : c = '~'
    · subst htilde
      obtain ⟨hzero, hone⟩ := hplain rfl
      refine iff_of_false (fun h => (h.1 rfl).elim hzero hone) fun h => hzero ?_
      have hescape : escape ('~' :: key) = '~' :: '0' :: escape key := rfl
      rw [hescape] at h
      rw [(List.cons.inj h).2, List.head?_cons]
    · have hescape : escape (c :: key) = c :: escape key := by
        rw [escape, List.flatMap_cons, escapeChar, if_neg htilde, if_neg hc.symm]
        rfl
      simp [TildesEscaped, hescape, htilde, ih hrest]

theorem Unescapes.mem_of_tilde {token key : List Char} (h : Unescapes token key)
    (htilde : '~' ∈ token) : '~' ∈ key ∨ '/' ∈ key := by
  induction h with
  | nil => cases htilde
  | slash => exact .inr List.mem_cons_self
  | tilde => exact .inl List.mem_cons_self
  | @plain c rest key _ _ ih =>
    rcases List.mem_cons.mp htilde with rfl | hrest
    · exact .inl List.mem_cons_self
    · exact (ih hrest).imp (List.mem_cons_of_mem c) (List.mem_cons_of_mem c)

/-! ## Indices -/

/-- An index is written in digits, which may stand after a plus sign. -/
theorem index?_eq_some_iff {cs : List Char} {i : Nat} :
    index? cs = some i ↔ ∃ digits, (cs = digits ∨ cs = '+' :: digits) ∧ digits ≠ [] ∧
      (∀ c ∈ digits, isDigit c = true) ∧ Nat.ofDigitChars 10 digits 0 = i := by
  have hdigits : ∀ digits : List Char,
      (if digits.all isDigit then numeral? 10 digits else none) = some i ↔
        digits ≠ [] ∧ (∀ c ∈ digits, isDigit c = true) ∧ Nat.ofDigitChars 10 digits 0 = i := by
    intro digits
    rw [Option.ite_none_right_eq_some, numeral?_eq_some_iff, List.all_eq_true]
    exact and_iff_right_of_imp fun h => h.2.1
  by_cases hsign : ∃ digits, cs = '+' :: digits
  · obtain ⟨digits, rfl⟩ := hsign
    rw [index?, hdigits]
    constructor
    · exact fun h => ⟨digits, .inr rfl, h⟩
    · rintro ⟨digits', rfl | h, hnumeral⟩
      · exact absurd (hnumeral.2.1 '+' List.mem_cons_self) (by decide)
      · exact (List.cons.inj h).2 ▸ hnumeral
  · have hfree : ∀ digits, cs ≠ '+' :: digits := fun digits h => hsign ⟨digits, h⟩
    rw [index?, hdigits]
    · constructor
      · exact fun h => ⟨cs, .inl rfl, h⟩
      · rintro ⟨digits, rfl | h, hnumeral⟩
        · exact hnumeral
        · exact absurd h (hfree digits)
    · exact hfree

theorem signed_of_mem {cs digits : List Char} (hsign : cs = digits ∨ cs = '+' :: digits)
    (hdigits : ∀ c ∈ digits, isDigit c = true) : ∀ c ∈ cs, c = '+' ∨ isDigit c = true := by
  rcases hsign with rfl | rfl
  · exact fun c hc => .inr (hdigits c hc)
  · exact List.forall_mem_cons.mpr ⟨.inl rfl, fun c hc => .inr (hdigits c hc)⟩

/-- There is nothing to unescape in a token that is read as an index. -/
theorem index?_unescape_iff {token : List Char} {i : Nat} :
    index? (unescape token) = some i ↔ Names token (.index i) := by
  have hplain : '~' ∉ token → unescape token = token := fun hfree => by
    rw [unescape, replaceEscape_of_not_mem hfree, replaceEscape_of_not_mem hfree]
  rw [index?_eq_some_iff]
  constructor
  · rintro ⟨digits, hsign, hne, hdigits, rfl⟩
    have hsigned := signed_of_mem hsign hdigits
    have hfree : '~' ∉ token := by
      intro htilde
      rcases (unescapes_iff.mpr rfl).mem_of_tilde htilde with hmem | hmem
      · exact absurd (hsigned _ hmem) (by decide)
      · exact absurd (hsigned _ hmem) (by decide)
    rw [hplain hfree] at hsign
    exact .index hsign hne hdigits
  · intro h
    cases h with
    | @index digits hsign hne hdigits =>
      have hfree : '~' ∉ token := fun htilde =>
        absurd (signed_of_mem hsign hdigits _ htilde) (by decide)
      rw [hplain hfree]
      exact ⟨digits, hsign, hne, hdigits, rfl⟩

/-! ## Steps -/

theorem exists_of_lookup? {entries : List (Yaml × Yaml)} {key : String} {node : Yaml}
    (h : Yaml.lookup? entries key = some node) :
    ∃ before after, entries = before ++ (.str key, node) :: after ∧
      ∀ entry ∈ before, entry.1 ≠ .str key := by
  induction entries with
  | nil => cases h
  | cons entry rest ih =>
    by_cases hkey : entry.1 = .str key
    · obtain ⟨key', value⟩ := entry
      dsimp only at hkey
      subst hkey
      rw [Yaml.lookup?, if_pos rfl] at h
      cases h
      exact ⟨[], rest, rfl, List.forall_mem_nil _⟩
    · have hone : ∀ entry' ∈ [entry], entry'.1 ≠ .str key := List.forall_mem_singleton.mpr hkey
      rw [← List.singleton_append, lookup?_of_missing hone] at h
      obtain ⟨before, after, rfl, hbefore⟩ := ih h
      exact ⟨entry :: before, after, rfl, List.forall_mem_cons.mpr ⟨hkey, hbefore⟩⟩

/-- A token leads on exactly by a step that it names. -/
theorem step?_eq_some_iff {node next : Yaml} {token : List Char} :
    step? node token = some next ↔ ∃ step : Step, Names token step ∧ step.Leads node next := by
  constructor
  · intro h
    cases node with
    | map entries =>
      obtain ⟨before, after, rfl, hbefore⟩ := exists_of_lookup? h
      exact ⟨_, .key (unescapes_iff.mpr (String.toList_ofList).symm), .key hbefore⟩
    | seq items =>
      obtain ⟨i, hi, hitem⟩ := Option.bind_eq_some_iff.mp h
      exact ⟨.index i, index?_unescape_iff.mp hi, .index hitem⟩
    | _ => cases h
  · rintro ⟨step, hname, hleads⟩
    cases hleads with
    | @key name before after _ hfirst =>
      cases hname with
      | key hkey =>
        rw [step?, hkey.unescape, String.ofList_toList, lookup?_of_missing hfirst, Yaml.lookup?,
          if_pos rfl]
    | index hitem =>
      rw [step?, index?_unescape_iff.mpr hname]
      exact hitem

/-- Tokens select what a path reaches whose steps they name. -/
theorem foldlM_eq_some_iff {root node : Yaml} {tokens : List (List Char)} :
    tokens.foldlM step? root = some node ↔
      ∃ path, Reaches root path node ∧ List.Forall₂ Names tokens path := by
  induction tokens generalizing root with
  | nil =>
    constructor
    · intro h
      cases h
      exact ⟨[], .here _, .nil⟩
    · rintro ⟨path, hpath, hnames⟩
      cases hnames
      cases hpath
      rfl
  | cons token rest ih =>
    rw [List.foldlM_cons]
    constructor
    · intro h
      obtain ⟨next, hnext, hrest⟩ := Option.bind_eq_some_iff.mp h
      obtain ⟨step, hname, hleads⟩ := step?_eq_some_iff.mp hnext
      obtain ⟨path, hpath, hnames⟩ := ih.mp hrest
      exact ⟨step :: path, .step hleads hpath, .cons hname hnames⟩
    · rintro ⟨path, hpath, hnames⟩
      cases hnames with
      | cons hname hnames =>
        cases hpath with
        | step hleads hpath =>
          exact Option.bind_eq_some_iff.mpr
            ⟨_, step?_eq_some_iff.mpr ⟨_, hname, hleads⟩, ih.mpr ⟨_, hpath, hnames⟩⟩

/-- A token that names a step is the step's own token when the grammar allows it. -/
theorem Names.own_iff {token : List Char} {step : Step} (h : Names token step)
    (hslash : '/' ∉ token) : TildesEscaped token ∧ IsPlain token step ↔ token = step.token := by
  cases h with
  | key hkey => exact (and_iff_left trivial).trans (hkey.escaped_iff hslash)
  | @index digits hsign hne hdigits =>
    -- Digits are the index's own ones unless a zero leads, and a sign is never its own.
    rcases hsign with rfl | rfl
    · have hfree : '~' ∉ token := fun htilde => absurd (hdigits _ htilde) (by decide)
      rw [and_iff_right (tildesEscaped_of_not_mem hfree), IsPlain, and_iff_right hne,
        and_iff_right hdigits, Step.token, eq_comm, decimal_ofDigitChars_iff hne hdigits]
    · refine iff_of_false (fun h => ?_) fun h => ?_
      · exact absurd (h.2.2.1 '+' List.mem_cons_self) (by decide)
      · rw [Step.token] at h
        have hmem : '+' ∈ decimal (Nat.ofDigitChars 10 digits 0) := h ▸ List.mem_cons_self
        exact absurd (isDigit_of_mem_decimal hmem) (by decide)

theorem names_token (step : Step) : Names step.token step := by
  cases step with
  | key name => exact .key (unescapes_iff.mpr (unescape_escape name.toList))
  | index i => exact index?_unescape_iff.mp ((unescape_decimal i).symm ▸ index?_decimal i)

/-- A step is determined by its token and the node from which it leads on. -/
theorem Names.unique {token : List Char} {step step' : Step} {node next next' : Yaml}
    (h : Names token step) (hleads : step.Leads node next) (h' : Names token step')
    (hleads' : step'.Leads node next') : step = step' ∧ next = next' := by
  have hstep := step?_eq_some_iff.mpr ⟨step, h, hleads⟩
  have hstep' := step?_eq_some_iff.mpr ⟨step', h', hleads'⟩
  refine ⟨?_, Option.some.inj (hstep.symm.trans hstep')⟩
  cases step with
  | key name =>
    cases step' with
    | key name' =>
      cases h with
      | key hkey =>
        cases h' with
        | key hkey' =>
          have hsame := hkey.unescape.symm.trans hkey'.unescape
          exact congrArg Step.key (String.toList_injective hsame)
    | index i =>
      cases hleads
      cases hleads'
  | index i =>
    cases step' with
    | key name =>
      cases hleads
      cases hleads'
    | index i' =>
      have hindex := index?_unescape_iff.mpr h
      rw [index?_unescape_iff.mpr h'] at hindex
      exact congrArg Step.index (Option.some.inj hindex).symm

/-! ## Pointers -/

theorem flatMap_splitAt (cs : List Char) :
    (splitAt '/' cs).flatMap ('/' :: ·) = '/' :: cs := by
  induction cs with
  | nil => rfl
  | cons c rest ih =>
    rw [splitAt]
    split
    · next hc => rw [List.flatMap_cons, ih, hc]; rfl
    · cases hpieces : splitAt '/' rest with
      | nil => exact absurd hpieces (splitAt_ne_nil '/' rest)
      | cons piece pieces =>
        rw [hpieces, List.flatMap_cons, List.cons_append] at ih
        rw [List.flatMap_cons, List.cons_append, List.cons_append, (List.cons.inj ih).2]

theorem splitAt_flatMap {token : List Char} {tokens : List (List Char)}
    (h : ∀ t ∈ token :: tokens, '/' ∉ t) :
    splitAt '/' (token ++ tokens.flatMap ('/' :: ·)) = token :: tokens := by
  induction tokens generalizing token with
  | nil => rw [List.flatMap_nil, List.append_nil, splitAt_of_not_mem (h token List.mem_cons_self)]
  | cons next rest ih =>
    rw [List.forall_mem_cons] at h
    rw [List.flatMap_cons, List.cons_append, splitAt_append, splitAt_of_not_mem h.1, ih h.2]
    rfl

theorem tokens?_eq_some_iff {pointer : String} {tokens : List (List Char)} :
    tokens? pointer.toList = some tokens ↔ HasTokens pointer tokens := by
  unfold HasTokens
  constructor
  · intro h
    unfold tokens? at h
    split at h
    · next hempty =>
      cases h
      exact ⟨hempty, nofun⟩
    · next rest hrest =>
      cases h
      exact ⟨hrest.trans (flatMap_splitAt rest).symm, fun token h => (mem_of_mem_splitAt h).1⟩
    · cases h
  · rintro ⟨hpointer, hfree⟩
    rw [hpointer]
    cases tokens with
    | nil => rfl
    | cons token rest => rw [List.flatMap_cons, List.cons_append, tokens?, splitAt_flatMap hfree]

theorem HasTokens.unique {pointer : String} {tokens tokens' : List (List Char)}
    (h : HasTokens pointer tokens) (h' : HasTokens pointer tokens') : tokens = tokens' :=
  Option.some.inj ((tokens?_eq_some_iff.mpr h).symm.trans (tokens?_eq_some_iff.mpr h'))

theorem hasTokens_ofPath (path : List Step) : HasTokens (ofPath path) (path.map Step.token) :=
  tokens?_eq_some_iff.mp (tokens?_ofPath path)

/-- Tokens that the grammar allows are the own tokens of the steps they name. -/
theorem own_tokens_iff {tokens : List (List Char)} {path : List Step}
    (h : List.Forall₂ Names tokens path) (hslash : ∀ token ∈ tokens, '/' ∉ token) :
    (∀ token ∈ tokens, TildesEscaped token) ∧ List.Forall₂ IsPlain tokens path ↔
      tokens = path.map Step.token := by
  induction h with
  | nil => exact iff_of_true ⟨nofun, .nil⟩ rfl
  | @cons token step tokens path hname _ ih =>
    rw [List.forall_mem_cons] at hslash
    rw [List.forall_mem_cons, List.forall₂_cons, List.map_cons, List.cons.injEq,
      ← hname.own_iff hslash.1, ← ih hslash.2, and_and_and_comm]

theorem takes_ofPath (path : List Step) : Takes (ofPath path) path := by
  refine ⟨path.map Step.token, hasTokens_ofPath path, ?_⟩
  exact List.forall₂_map_left_iff.mpr (List.forall₂_same.mpr fun step _ => names_token step)

theorem Takes.head {pointer : String} {path : List Step} (h : Takes pointer path) :
    pointer = "" ∨ pointer.toList.head? = some '/' := by
  obtain ⟨tokens, ⟨hpointer, -⟩, -⟩ := h
  cases tokens with
  | nil => exact .inl (String.toList_injective hpointer)
  | cons token rest => exact .inr (by rw [hpointer]; rfl)

/-- The one pointer along a path that the grammar allows is the path's own pointer. -/
theorem Takes.conforms_iff {pointer : String} {path : List Step} (h : Takes pointer path) :
    Conforms pointer path ↔ pointer = ofPath path := by
  obtain ⟨tokens, htokens, hnames⟩ := h
  have htext : pointer = ofPath path ↔ tokens = path.map Step.token := by
    constructor
    · rintro rfl
      exact htokens.unique (hasTokens_ofPath path)
    · rintro rfl
      exact String.toList_injective (htokens.1.trans (hasTokens_ofPath path).1.symm)
  rw [htext, ← own_tokens_iff hnames htokens.2, Conforms, htokens.1, tildesEscaped_flatMap]
  refine and_congr_right fun _ => ⟨?_, fun hplain => ⟨tokens, htokens, hplain⟩⟩
  rintro ⟨tokens', htokens', hplain⟩
  rwa [htokens.unique htokens']

/-- A pointer that selects a node takes only one path to it. -/
theorem path_unique {root node node' : Yaml} {tokens : List (List Char)} {path path' : List Step}
    (h : Reaches root path node) (hnames : List.Forall₂ Names tokens path)
    (h' : Reaches root path' node') (hnames' : List.Forall₂ Names tokens path') : path = path' := by
  induction h generalizing tokens path' with
  | here => cases hnames; cases hnames'; rfl
  | step hleads _ ih =>
    cases hnames with
    | cons hname hnames =>
      cases hnames' with
      | cons hname' hnames' =>
        cases h' with
        | step hleads' hpath' =>
          obtain ⟨rfl, rfl⟩ := hname.unique hleads hname' hleads'
          rw [ih hnames hpath' hnames']

/-- A pointer takes one path only through a tree. -/
theorem Takes.unique {root node node' : Yaml} {pointer : String} {path path' : List Step}
    (h : Takes pointer path) (hpath : Reaches root path node) (h' : Takes pointer path')
    (hpath' : Reaches root path' node') : path = path' := by
  obtain ⟨tokens, htokens, hnames⟩ := h
  obtain ⟨tokens', htokens', hnames'⟩ := h'
  rw [htokens'.unique htokens] at hnames'
  exact path_unique hpath hnames hpath' hnames'

/-- A pointer selects a node when it takes a path to it. -/
theorem select?_eq_some_iff {root node : Yaml} {pointer : String} :
    select? root pointer = some node ↔ ∃ path, Reaches root path node ∧ Takes pointer path := by
  rw [select?]
  constructor
  · intro h
    obtain ⟨tokens, htokens, hselect⟩ := Option.bind_eq_some_iff.mp h
    obtain ⟨path, hpath, hnames⟩ := foldlM_eq_some_iff.mp hselect
    exact ⟨path, hpath, tokens, tokens?_eq_some_iff.mp htokens, hnames⟩
  · rintro ⟨path, hpath, tokens, htokens, hnames⟩
    exact Option.bind_eq_some_iff.mpr
      ⟨tokens, tokens?_eq_some_iff.mpr htokens, foldlM_eq_some_iff.mpr ⟨path, hpath, hnames⟩⟩

/-- A pointer selects a node exactly when its tokens name the steps of a path to this node, and
there is only one such path. Among the pointers that take a path, all of which are empty or start
with a slash, the grammar allows one. -/
theorem selecting_pointers (root node : Yaml) (pointer : String) :
    (select? root pointer = some node ↔ ∃! path, Reaches root path node ∧ Takes pointer path) ∧
      (select? root pointer = some node →
        pointer = "" ∨ pointer.toList.head? = some '/') ∧
      ∀ path, Takes pointer path ∧ Conforms pointer path ↔ pointer = ofPath path := by
  refine ⟨?_, ?_, ?_⟩
  · rw [select?_eq_some_iff]
    refine ⟨?_, ExistsUnique.exists⟩
    rintro ⟨path, hpath, htakes⟩
    refine ⟨path, ⟨hpath, htakes⟩, ?_⟩
    rintro path' ⟨hpath', htakes'⟩
    exact htakes'.unique hpath' htakes hpath
  · intro h
    obtain ⟨path, -, htakes⟩ := select?_eq_some_iff.mp h
    exact htakes.head
  · intro path
    rw [and_congr_right Takes.conforms_iff]
    exact and_iff_right_of_imp fun h => h ▸ takes_ofPath path

/-- A tilde that stands for itself and an index with a sign. -/
theorem selecting_pointers_of_sign :
    let root : Yaml := .map [(.str "~", .seq [.str "a", .str "b"])]
    let path : List Step := [.key "~", .index 1]
    select? root "/~/+1" = some (.str "b") ∧
      (∃! path, Reaches root path (.str "b") ∧ Takes "/~/+1" path) ∧
      ("/~/+1" = "" ∨ "/~/+1".toList.head? = some '/') ∧
      ¬(Takes "/~/+1" path ∧ Conforms "/~/+1" path) ∧
      Takes "/~0/1" path ∧ Conforms "/~0/1" path := by
  intro root path
  have hselect : select? root "/~/+1" = some (.str "b") := by
    rw [select?]
    exact Option.bind_eq_some_iff.mpr ⟨[['~'], ['+', '1']], rfl, rfl⟩
  obtain ⟨hpath, hhead, hother⟩ := selecting_pointers root (.str "b") "/~/+1"
  obtain ⟨-, -, hown⟩ := selecting_pointers root (.str "b") "/~0/1"
  exact ⟨hselect, hpath.mp hselect, hhead hselect,
    fun h => absurd ((hother path).mp h) (by decide), (hown path).mpr (by decide)⟩

/-- Three pointers that the grammar forbids take one path to an entry. -/
theorem forbidden_pointers_select :
    let root : Yaml := .map [(.str "~", .seq [.str "a", .str "b"])]
    let path : List Step := [.key "~", .index 1]
    ∀ pointer ∈ ["/~/1", "/~0/+1", "/~0/01"],
      select? root pointer = some (.str "b") ∧ Takes pointer path ∧ ¬Conforms pointer path := by
  intro root path
  have hzero : Names ['~', '0'] (.key "~") := .key (.tilde .nil)
  have htilde : Names ['~'] (.key "~") := .key (.plain (by decide) .nil)
  have hone : Names ['1'] (.index 1) :=
    @Names.index _ ['1'] (.inl rfl) nofun (List.all_eq_true.mp rfl)
  have hsign : Names ['+', '1'] (.index 1) :=
    @Names.index _ ['1'] (.inr rfl) nofun (List.all_eq_true.mp rfl)
  have hlong : Names ['0', '1'] (.index 1) :=
    @Names.index _ ['0', '1'] (.inl rfl) nofun (List.all_eq_true.mp rfl)
  have htakes : ∀ pointer ∈ ["/~/1", "/~0/+1", "/~0/01"], Takes pointer path := by
    rw [List.forall_mem_cons, List.forall_mem_cons, List.forall_mem_singleton]
    refine ⟨?_, ?_, ?_⟩
    · exact ⟨[['~'], ['1']], ⟨rfl, by decide⟩, .cons htilde (.cons hone .nil)⟩
    · exact ⟨[['~', '0'], ['+', '1']], ⟨rfl, by decide⟩, .cons hzero (.cons hsign .nil)⟩
    · exact ⟨[['~', '0'], ['0', '1']], ⟨rfl, by decide⟩, .cons hzero (.cons hlong .nil)⟩
  have hother : ∀ pointer ∈ ["/~/1", "/~0/+1", "/~0/01"], pointer ≠ ofPath path := by decide
  intro pointer hmem
  have hpath : Reaches root path (.str "b") :=
    .step (@Step.Leads.key _ [] [] _ nofun) (.step (.index rfl) (.here _))
  exact ⟨select?_eq_some_iff.mpr ⟨path, hpath, htakes pointer hmem⟩, htakes pointer hmem,
    (htakes pointer hmem).conforms_iff.not.mpr (hother pointer hmem)⟩

end LinkedApi.Pointer
