import LinkedApi.Toml.Basic

/-!
# Tables of a TOML text

Tables grow by headers and by keys that are written with dots. No key is set twice, a table has
at most one header, and what one way of writing has closed the other does not open.
-/

namespace LinkedApi.Toml

/-- The entries of a table. -/
abbrev Entries := List (String × Toml)

def lookup? (entries : Entries) (key : String) : Option Toml :=
  (entries.find? (·.1 == key)).map (·.2)

/-- Puts a value under a key, in place of the one that is there or last. -/
def put (entries : Entries) (key : String) (value : Toml) : Entries :=
  match entries with
  | [] => [(key, value)]
  | (k, v) :: rest => if k = key then (k, value) :: rest else (k, v) :: put rest key value

/-- Sets a key, written with dots, that is not yet set. -/
def assign? (value : Toml) : List String → Entries → Option Entries
  | [], _ => none
  | [key], entries =>
    match lookup? entries key with
    | none => some (put entries key value)
    | some _ => none
  | key :: rest, entries =>
    match lookup? entries key with
    | none => (assign? value rest []).map fun inner => put entries key (.table .dotted inner)
    | some (.table .dotted inner) =>
      (assign? value rest inner).map fun inner => put entries key (.table .dotted inner)
    | some _ => none

/-- Changes the table at a path, with the tables on the way. Of tables that share one name the
last is meant. -/
def within? (change : Entries → Option Entries) : List String → Entries → Option Entries
  | [], entries => change entries
  | key :: rest, entries =>
    match lookup? entries key with
    | none => (within? change rest []).map fun inner => put entries key (.table .implied inner)
    | some (.table .inlined _) => none
    | some (.table origin inner) =>
      (within? change rest inner).map fun inner => put entries key (.table origin inner)
    | some (.tables elements) =>
      match elements.getLast? with
      | some (.table origin inner) =>
        (within? change rest inner).map fun inner =>
          put entries key (.tables (elements.dropLast ++ [.table origin inner]))
      | _ => none
    | some _ => none

/-- Gives a table its header. -/
def openTable? (key : String) (entries : Entries) : Option Entries :=
  match lookup? entries key with
  | none => some (put entries key (.table .header []))
  | some (.table .implied inner) => some (put entries key (.table .header inner))
  | some _ => none

/-- Adds a table to those that share one name. -/
def addTable? (key : String) (entries : Entries) : Option Entries :=
  match lookup? entries key with
  | none => some (put entries key (.tables [.table .header []]))
  | some (.tables elements) => some (put entries key (.tables (elements ++ [.table .header []])))
  | some _ => none

/-- Splits the last name off a path. -/
def splitLast? (path : List String) : Option (List String × String) :=
  path.getLast?.map fun last => (path.dropLast, last)

/-- One statement of a text. -/
inductive Statement where
  | header (path : List String)
  | arrayHeader (path : List String)
  | assignment (path : List String) (value : Toml)
  deriving Repr

/-- Carries out statements; keys are set in the table of the last header. -/
def carryOut? (current : List String) (entries : Entries) : List Statement → Option Entries
  | [] => some entries
  | .header path :: rest => do
    let (way, last) ← splitLast? path
    carryOut? path (← within? (openTable? last) way entries) rest
  | .arrayHeader path :: rest => do
    let (way, last) ← splitLast? path
    carryOut? path (← within? (addTable? last) way entries) rest
  | .assignment path value :: rest => do
    carryOut? current (← within? (assign? value path) current entries) rest

/-- The entries of a table between braces. -/
def inlineEntries? : Entries → List (List String × Toml) → Option Entries
  | entries, [] => some entries
  | entries, (path, value) :: rest => do inlineEntries? (← assign? value path entries) rest

end LinkedApi.Toml
