import LinkedApi.Resolution.Documents
import LinkedApi.Resolution.Pointer

/-!
# Expansion of references

Every reference in a document is replaced by what it stands for, which is expanded in turn as
part of its own document. A document is loaded once. A reference that fails leaves null in its
place, and the expansion goes on, so that all failures are found in the order of the text.
-/

namespace LinkedApi

/-- Why a reference stands for nothing. -/
inductive ReferenceFailure where
  /-- The same node is being expanded around it. -/
  | cycle
  | notLoaded (cause : LoadFailure)
  | selectsNothing (pointer : String)
  deriving DecidableEq, Repr

def ReferenceFailure.message : ReferenceFailure → String
  | .cycle => "reference cycle"
  | .notLoaded cause => cause.message
  | .selectsNothing pointer => s!"pointer '#{pointer}' selects nothing"

/-- A reference that stands for nothing, with the document it is in. -/
structure UnresolvedReference where
  /-- The reference as written. -/
  reference : String
  document : String
  reason : ReferenceFailure
  deriving DecidableEq, Repr

def UnresolvedReference.message (u : UnresolvedReference) : String :=
  s!"unresolved reference '{u.reference}' in {u.document}: {u.reason.message}"

namespace Expansion

/-- What an expansion has done so far. -/
structure Progress where
  /-- Documents in the order in which they were first asked for. -/
  loaded : List (Location × Loaded)
  /-- References that failed, in the order of the text. -/
  failures : List UnresolvedReference

def Progress.start : Progress := ⟨[], []⟩

/-- A document, to which the references in it are relative. -/
structure Document where
  location : Location
  root : Yaml

/-- Loads a document, unless that was done before. Documents are told apart by the texts of their
locations. -/
def load (docs : Documents) (location : Location) (p : Progress) : Loaded × Progress :=
  match p.loaded.find? (·.1.toString == location.toString) with
  | some (_, outcome) => (outcome, p)
  | none =>
    let outcome := docs.load location
    (outcome, { p with loaded := p.loaded ++ [(location, outcome)] })

/-- Notes a failure; null takes the place of the reference. -/
def fail (doc : Document) (reference : String) (reason : ReferenceFailure) (p : Progress) :
    Yaml × Progress :=
  (.null, { p with failures := p.failures ++ [⟨reference, doc.location.toString, reason⟩] })

mutual

/-- Replaces each reference of a tree, from left to right, by what `expand` gives for it. Keys and
tags are kept. -/
def replace (expand : String → Progress → Yaml × Progress) :
    Yaml → Progress → Yaml × Progress
  | .map entries, p =>
    match Reference.written? entries with
    | some reference => expand reference p
    | none =>
      let (entries, p) := replaceEntries expand entries p
      (.map entries, p)
  | .seq items, p =>
    let (items, p) := replaceItems expand items p
    (.seq items, p)
  | .tagged tag value, p =>
    let (value, p) := replace expand value p
    (.tagged tag value, p)
  | scalar, p => (scalar, p)

def replaceItems (expand : String → Progress → Yaml × Progress) :
    List Yaml → Progress → List Yaml × Progress
  | [], p => ([], p)
  | item :: rest, p =>
    let (item, p) := replace expand item p
    let (rest, p) := replaceItems expand rest p
    (item :: rest, p)

def replaceEntries (expand : String → Progress → Yaml × Progress) :
    List (Yaml × Yaml) → Progress → List (Yaml × Yaml) × Progress
  | [], p => ([], p)
  | (key, value) :: rest, p =>
    let (value, p) := replace expand value p
    let (rest, p) := replaceEntries expand rest p
    ((key, value) :: rest, p)

end

/-- The document a reference leads to. -/
def target (docs : Documents) (doc : Document) (location : Location) (r : Reference)
    (p : Progress) : Loaded × Progress :=
  if r.target.isEmpty then (.ok doc.root, p) else load docs location p

/-- The node a reference selects in its document. -/
def selected (root : Yaml) : Option String → Except ReferenceFailure Yaml
  | none => .ok root
  | some pointer =>
    match Pointer.select? root pointer with
    | some node => .ok node
    | none => .error (.selectsNothing pointer)

/-- The text that identifies what is being expanded. -/
def key (location : Location) (fragment : Option String) : String :=
  location.toString ++ "#" ++ fragment.getD ""

/-- Expands a node of a document. `around` holds the keys of what is being expanded around it,
and `depth` bounds how many more expansions may be nested. -/
def node (docs : Documents) : Nat → List String → Document → Yaml → Progress → Yaml × Progress
  | 0, _, doc => replace fun reference => fail doc reference .cycle
  | depth + 1, around, doc => replace fun reference p =>
    let r := Reference.ofText reference
    let location := if r.target.isEmpty then doc.location else doc.location.join r.target
    let key := key location r.fragment
    if around.contains key then fail doc reference .cycle p
    else
      match target docs doc location r p with
      | (.error cause, p) => fail doc reference (.notLoaded cause) p
      | (.ok root, p) =>
        match selected root r.fragment with
        | .error reason => fail doc reference reason p
        | .ok start => node docs depth (key :: around) ⟨location, root⟩ start p

/-- Expands a whole document. -/
def document (docs : Documents) (doc : Document) : Progress → Yaml × Progress :=
  node docs docs.nestingBound [key doc.location none] doc doc.root

end Expansion

end LinkedApi
