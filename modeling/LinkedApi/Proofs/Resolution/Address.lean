import LinkedApi.Proofs.Resolution.Pointer
import LinkedApi.Proofs.Text.Digits
import Mathlib.Logic.Basic

/-!
# Addresses of nodes

A node is reached from the root by keys of mappings and indices of sequences. Written one after the
other, each after a slash, these are a pointer that selects exactly this node, whatever the keys
are. A pointer that goes on where nothing stands selects nothing.
-/

namespace LinkedApi.Pointer

open Text

inductive Step where
  | key (key : String)
  | index (index : Nat)
  deriving DecidableEq, Repr

namespace Step

def token : Step → List Char
  | .key name => escape name.toList
  | .index i => decimal i

/-- A step leads to what stands under a string key of a mapping, which is its first entry with this
key, or to an item of a sequence. -/
inductive Leads : Step → Yaml → Yaml → Prop where
  | key {name : String} {before after : List (Yaml × Yaml)} {node : Yaml}
      (hfirst : ∀ entry ∈ before, entry.1 ≠ .str name) :
      Leads (.key name) (.map (before ++ (.str name, node) :: after)) node
  | index {i : Nat} {items : List Yaml} {node : Yaml} (hitem : items[i]? = some node) :
      Leads (.index i) (.seq items) node

/-- A step leads nowhere when the key is missing, when the sequence has ended, or when it starts
from a scalar or a tagged value. -/
inductive Misses : Step → Yaml → Prop where
  | key {name : String} {entries : List (Yaml × Yaml)}
      (hmissing : ∀ entry ∈ entries, entry.1 ≠ .str name) : Misses (.key name) (.map entries)
  | index {i : Nat} {items : List Yaml} (hended : items.length ≤ i) :
      Misses (.index i) (.seq items)
  | leaf {step : Step} {node : Yaml} (hmap : ∀ entries, node ≠ .map entries)
      (hseq : ∀ items, node ≠ .seq items) : Misses step node

theorem slash_not_mem_token (step : Step) : '/' ∉ step.token := by
  cases step with
  | key name => exact slash_not_mem_escape name.toList
  | index i => exact fun hmem => absurd (isDigit_of_mem_decimal hmem) (by decide)

end Step

/-- What a path of steps leads to. -/
inductive Reaches : Yaml → List Step → Yaml → Prop where
  | here (node : Yaml) : Reaches node [] node
  | step {root next node : Yaml} {step : Step} {path : List Step} (hstep : step.Leads root next)
      (hpath : Reaches next path node) : Reaches root (step :: path) node

def ofPath (path : List Step) : String :=
  String.ofList (path.flatMap fun step => '/' :: step.token)

/-! ## Tokens -/

theorem replaceEscape_of_not_mem {digit by' : Char} {token : List Char} (h : '~' ∉ token) :
    replaceEscape digit by' token = token := by
  induction token with
  | nil => rfl
  | cons c rest ih =>
    obtain ⟨hc, hrest⟩ := List.ne_and_not_mem_of_not_mem_cons h
    rw [replaceEscape_of_ne hc.symm, ih hrest]

/-- There is nothing to unescape in an index. -/
@[simp]
theorem unescape_decimal (index : Nat) : unescape (decimal index) = decimal index := by
  have hfree : '~' ∉ decimal index := fun hmem =>
    absurd (isDigit_of_mem_decimal hmem) (by decide)
  rw [unescape, replaceEscape_of_not_mem hfree, replaceEscape_of_not_mem hfree]

@[simp]
theorem index?_decimal (index : Nat) : index? (decimal index) = some index := by
  have hdigits : (decimal index).all isDigit = true :=
    List.all_eq_true.mpr fun _ => isDigit_of_mem_decimal
  have hsign : ∀ rest, decimal index ≠ '+' :: rest := by
    intro rest hrest
    rw [hrest] at hdigits
    cases hdigits
  rw [index?, if_pos hdigits, numeral?_decimal]
  exact hsign

theorem joinWith_tokens (step : Step) (path : List Step) :
    (step :: path).flatMap (fun step => '/' :: step.token) =
      '/' :: joinWith '/' ((step :: path).map Step.token) := by
  induction path generalizing step with
  | nil => simp [joinWith]
  | cons next rest ih =>
    have hrest := ih next
    rw [List.map_cons] at hrest
    rw [List.flatMap_cons, hrest, List.map_cons, List.map_cons, joinWith, joinWith,
      List.intercalate_cons_cons, List.append_assoc, List.singleton_append, List.cons_append]

/-- The tokens of the pointer are those of the steps, since none has a slash. -/
@[simp]
theorem tokens?_ofPath (path : List Step) :
    tokens? (ofPath path).toList = some (path.map Step.token) := by
  rw [ofPath, String.toList_ofList]
  cases path with
  | nil => rfl
  | cons step rest =>
    have hfree : ∀ token ∈ (step :: rest).map Step.token, '/' ∉ token :=
      List.forall_mem_map.mpr fun step _ => step.slash_not_mem_token
    rw [joinWith_tokens, tokens?, splitAt_joinWith (by simp) hfree]

/-- The pointer of a path is followed step by step. -/
theorem select?_ofPath (root : Yaml) (path : List Step) :
    select? root (ofPath path) = (path.map Step.token).foldlM step? root := by
  rw [select?, tokens?_ofPath]
  rfl

/-! ## Steps -/

theorem lookup?_of_missing {key : String} {before : List (Yaml × Yaml)}
    (h : ∀ entry ∈ before, entry.1 ≠ .str key) (after : List (Yaml × Yaml)) :
    Yaml.lookup? (before ++ after) key = Yaml.lookup? after key := by
  induction before with
  | nil => rfl
  | cons entry rest ih =>
    obtain ⟨key', node⟩ := entry
    rw [List.forall_mem_cons] at h
    rw [List.cons_append]
    cases key' with
    | str other =>
      have hne : other ≠ key := fun hsame => h.1 (congrArg Yaml.str hsame)
      rw [Yaml.lookup?, if_neg hne, ih h.2]
    | _ => rw [Yaml.lookup?, ih h.2]; nofun

@[simp]
theorem step?_key (entries : List (Yaml × Yaml)) (key : String) :
    step? (.map entries) (Step.token (.key key)) = Yaml.lookup? entries key := by
  rw [step?, Step.token, unescape_escape, String.ofList_toList]

@[simp]
theorem step?_index (items : List Yaml) (index : Nat) :
    step? (.seq items) (Step.token (.index index)) = items[index]? := by
  rw [step?, Step.token, unescape_decimal, index?_decimal]
  rfl

theorem step?_of_leads {step : Step} {node next : Yaml} (h : step.Leads node next) :
    step? node step.token = some next := by
  cases h with
  | key hfirst => rw [step?_key, lookup?_of_missing hfirst, Yaml.lookup?, if_pos rfl]
  | index hitem => rw [step?_index, hitem]

theorem step?_of_misses {step : Step} {node : Yaml} (h : step.Misses node) :
    step? node step.token = none := by
  cases h with
  | @key name entries hmissing =>
    have hlookup := lookup?_of_missing hmissing []
    rw [List.append_nil] at hlookup
    rw [step?_key, hlookup]
    rfl
  | index hended => rw [step?_index, List.getElem?_eq_none hended]
  | leaf hmap hseq => rw [step?] <;> assumption

/-- What a path reaches is selected by the tokens of the path. -/
theorem foldlM_of_reaches {root node : Yaml} {path : List Step} (h : Reaches root path node) :
    (path.map Step.token).foldlM step? root = some node := by
  induction h with
  | here node => rfl
  | step hstep _ ih =>
    rw [List.map_cons, List.foldlM_cons, step?_of_leads hstep]
    exact ih

/-- The pointer of a path selects the node that the path leads to, and nothing once it goes on by a
step that leads nowhere. -/
theorem every_node_addressed {root node : Yaml} {path : List Step} (h : Reaches root path node) :
    select? root (ofPath path) = some node ∧
      ∀ step : Step, step.Misses node → select? root (ofPath (path ++ [step])) = none := by
  refine ⟨(select?_ofPath root path).trans (foldlM_of_reaches h), ?_⟩
  intro step hmisses
  rw [select?_ofPath, List.map_append, List.foldlM_append, foldlM_of_reaches h]
  change (step? node step.token).bind _ = none
  rw [step?_of_misses hmisses]
  rfl

/-- An escape in a key, an index and an empty key. -/
theorem every_node_addressed_of_escaped :
    let root : Yaml :=
      .map [(.int 1, .null), (.str "~01/", .seq [.null, .map [(.str "", .bool true)]])]
    let path : List Step := [.key "~01/", .index 1, .key ""]
    ofPath path = "/~001~1/1/" ∧ select? root (ofPath path) = some (.bool true) ∧
      select? root (ofPath (path ++ [.index 0])) = none := by
  intro root path
  have hreaches : Reaches root path (.bool true) :=
    .step (@Step.Leads.key _ [(.int 1, .null)] [] _ (by simp)) (.step (.index rfl)
      (.step (@Step.Leads.key _ [] [] _ nofun) (.here _)))
  obtain ⟨hselected, hnothing⟩ := every_node_addressed hreaches
  exact ⟨by decide, hselected, hnothing (.index 0) (.leaf nofun nofun)⟩

end LinkedApi.Pointer
