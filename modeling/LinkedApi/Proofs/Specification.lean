import LinkedApi.Extraction
import LinkedApi.Proofs.Outcomes

/-!
# What a document declares

The operations and data sources of a tree as one expression. Reading a specification gives all of
them in the order in which they stand, or it fails.
-/

namespace LinkedApi

open Outcome

def Yaml.named : Yaml → List (String × Yaml)
  | .map entries => entries.filterMap fun entry => entry.1.text?.map (·, entry.2)
  | _ => []

def Yaml.texts : Yaml → List String
  | .str text => [text]
  | .seq items => items.filterMap (·.text?)
  | _ => []

theorem Yaml.named_cons {key value : Yaml} {text : String} (h : key.text? = some text)
    (rest : List (Yaml × Yaml)) :
    (Yaml.map ((key, value) :: rest)).named = (text, value) :: (Yaml.map rest).named := by
  simp [named, h]

namespace Specification

/-- The operation of each pair of a path and a method, in the order of declaration. -/
def pairs (tree : Yaml) : List Operation :=
  ((tree.get? "paths").getD .null).named.flatMap fun (path, methods) =>
    methods.named.map fun (method, node) => ⟨path, method, node⟩

/-- The data sources under each type, in the order of declaration. -/
def declaredSources (tree : Yaml) : List DataSource :=
  ((tree.get? "datasources").getD .null).named.flatMap fun (type, node) =>
    node.texts.map fun value => ⟨type, value⟩

/-! ## Operations -/

theorem methodsOf_ok {path : String} {methods : List (Yaml × Yaml)} {ops : List Operation}
    (h : methodsOf path methods = .ok ops) :
    ops = (Yaml.map methods).named.map fun (method, node) => ⟨path, method, node⟩ := by
  induction methods generalizing ops with
  | nil => exact (Except.ok.inj h).symm
  | cons entry rest ih =>
    rw [methodsOf] at h
    split at h
    · cases h
    · next method htext =>
      obtain ⟨more, hmore, h⟩ := bind_eq_ok.mp h
      cases pure_eq_ok.mp h
      rw [Yaml.named_cons htext, List.map_cons, ih hmore]

theorem operationsUnder_ok {path : String} {methods : Yaml} {ops : List Operation}
    (h : operationsUnder path methods = .ok ops) :
    ops = methods.named.map fun (method, node) => ⟨path, method, node⟩ := by
  unfold operationsUnder at h
  split at h
  · exact (Except.ok.inj h).symm
  · exact methodsOf_ok h
  · cases h

/-- The operations are those of the pairs, in the order of declaration. -/
theorem operationsOf_ok {paths : List (Yaml × Yaml)} {ops : List Operation}
    (h : operationsOf paths = .ok ops) :
    ops = (Yaml.map paths).named.flatMap fun (path, methods) =>
      methods.named.map fun (method, node) => ⟨path, method, node⟩ := by
  induction paths generalizing ops with
  | nil => exact (Except.ok.inj h).symm
  | cons entry rest ih =>
    rw [operationsOf] at h
    split at h
    · cases h
    · next path htext =>
      obtain ⟨first, hfirst, h⟩ := bind_eq_ok.mp h
      obtain ⟨more, hmore, h⟩ := bind_eq_ok.mp h
      cases pure_eq_ok.mp h
      rw [Yaml.named_cons htext, List.flatMap_cons, ih hmore, operationsUnder_ok hfirst]

theorem ofEntries_ok {entries : List (Yaml × Yaml)} {spec : Specification}
    (h : ofEntries entries = .ok spec) :
    spec.operations = pairs (.map entries) ∧
      spec.dataSources = (Yaml.lookup? entries "datasources").getD .null := by
  have hpaths : (Yaml.map entries).get? "paths" = Yaml.lookup? entries "paths" := by rw [Yaml.get?]
  unfold ofEntries at h
  dsimp only at h
  split at h
  · next hnone =>
    obtain ⟨_, hsame, h⟩ := bind_eq_ok.mp h
    cases pure_eq_ok.mp hsame
    cases pure_eq_ok.mp h
    rw [pairs, hpaths, hnone]
    exact ⟨rfl, rfl⟩
  · next hnull =>
    obtain ⟨_, hsame, h⟩ := bind_eq_ok.mp h
    cases pure_eq_ok.mp hsame
    cases pure_eq_ok.mp h
    rw [pairs, hpaths, hnull]
    exact ⟨rfl, rfl⟩
  · next paths hfound =>
    obtain ⟨ops, hops, h⟩ := bind_eq_ok.mp h
    cases pure_eq_ok.mp h
    rw [pairs, hpaths, hfound]
    exact ⟨operationsOf_ok hops, rfl⟩
  · cases h

/-- A tree that holds a specification declares exactly its operations. -/
theorem ofTree_ok {tree : Yaml} {spec : Specification} (h : ofTree tree = .ok spec) :
    spec.operations = pairs tree ∧
      spec.dataSources = (tree.get? "datasources").getD .null := by
  unfold ofTree at h
  split at h
  · exact ofEntries_ok h
  · exact ofEntries_ok h
  · cases h

/-! ## Data sources -/

theorem locations_ok {type : String} {items : List Yaml} {sources : List DataSource}
    (h : locations type items = .ok sources) :
    sources = (Yaml.seq items).texts.map fun value => ⟨type, value⟩ := by
  induction items generalizing sources with
  | nil => exact (Except.ok.inj h).symm
  | cons item rest ih =>
    rw [locations] at h
    split at h
    · next value htext =>
      obtain ⟨more, hmore, h⟩ := bind_eq_ok.mp h
      cases pure_eq_ok.mp h
      rw [Yaml.texts, List.filterMap_cons_some htext, List.map_cons, ih hmore]
      rfl
    · cases h

theorem sourcesOfType_ok {type : String} {node : Yaml} {sources : List DataSource}
    (h : sourcesOfType type node = .ok sources) :
    sources = node.texts.map fun value => ⟨type, value⟩ := by
  unfold sourcesOfType at h
  split at h
  · exact (Except.ok.inj h).symm
  · exact locations_ok h
  · exact (Except.ok.inj h).symm
  · cases h

theorem sourcesOfEntries_ok {entries : List (Yaml × Yaml)} {sources : List DataSource}
    (h : sourcesOfEntries entries = .ok sources) :
    sources = (Yaml.map entries).named.flatMap fun (type, node) =>
      node.texts.map fun value => ⟨type, value⟩ := by
  induction entries generalizing sources with
  | nil => exact (Except.ok.inj h).symm
  | cons entry rest ih =>
    rw [sourcesOfEntries] at h
    split at h
    · next type htext =>
      obtain ⟨first, hfirst, h⟩ := bind_eq_ok.mp h
      obtain ⟨more, hmore, h⟩ := bind_eq_ok.mp h
      cases pure_eq_ok.mp h
      rw [Yaml.named_cons htext, List.flatMap_cons, ih hmore, sourcesOfType_ok hfirst]
    · cases h

theorem sourcesOf_ok {node : Yaml} {sources : List DataSource}
    (h : sourcesOf node = .ok sources) :
    sources = node.named.flatMap fun (type, node) =>
      node.texts.map fun value => ⟨type, value⟩ := by
  unfold sourcesOf at h
  split at h
  · exact (Except.ok.inj h).symm
  · exact sourcesOfEntries_ok h
  · cases h

end Specification

end LinkedApi
