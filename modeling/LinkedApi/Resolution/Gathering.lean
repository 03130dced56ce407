import LinkedApi.FileAccess
import LinkedApi.Resolution
import LinkedApi.Yaml.Document

/-!
# Gathering of documents

The documents that a specification needs are loaded one after the other, in the order in which
resolving it asks for them.
-/

namespace LinkedApi.Documents

variable {m : Type → Type} [Monad m]

/-- The text of the document at a location. -/
def textAt (access : FileAccess m) (transport : Transport m) :
    Location → m (Except LoadFailure String)
  | .file path => return (← access.readText path.toString).mapError .file
  | .url url => return (← transport.fetch url).mapError .transport

/-- The tree that a text is read as. -/
def treeOf (text : String) : Loaded :=
  match Yaml.parse? text with
  | some tree => .ok tree
  | none => .error .notYaml

/-- Loads the document at a location. -/
def loadFrom (access : FileAccess m) (transport : Transport m) (location : Location) :
    m Loaded := return (← textAt access transport location).bind treeOf

def known? (known : List (Location × Loaded)) (location : Location) : Option Loaded :=
  (known.find? (·.1 == location)).map (·.2)

/-- Documents that have been loaded; there are no others. -/
def ofLoaded (known : List (Location × Loaded)) : Documents where
  load location := (known? known location).getD (.error (.file .notFound))
  loadable := (known.filter fun (_, outcome) => outcome.toBool).map (·.1)
  mem_loadable {location tree} h := by
    cases hfound : known.find? (·.1 == location) with
    | none => simp [known?, hfound] at h
    | some entry =>
      have hkey : entry.1 = location := by simpa using List.find?_some hfound
      have houtcome : entry.2 = .ok tree := by simpa [known?, hfound] using h
      refine List.mem_map.mpr ⟨entry, List.mem_filter.mpr ⟨List.mem_of_find?_eq_some hfound, ?_⟩,
        hkey⟩
      simp [houtcome, Except.toBool]

/-- Loads what resolving a document asks for, until nothing more is asked for, but at most
`limit` documents. `known` holds what has been loaded. -/
def gather (load : Location → m Loaded) (text : String) :
    Nat → List (Location × Loaded) → m Documents
  | 0, known => return ofLoaded known
  | limit + 1, known => do
    let docs := ofLoaded known
    match (docs.resolveTree text).asked.find? fun location => (known? known location).isNone with
    | none => return docs
    | some location => gather load text limit (known ++ [(location, ← load location)])

end LinkedApi.Documents
