import LinkedApi.Transport.Flight

/-!
# A transport that answers from a table

The table says what stands at each location and how long a fetch takes. The transport records
what it was asked for, and how many fetches were under way at most.
-/

namespace LinkedApi

/-- The answer of a location. -/
structure TableEntry where
  answer : Fetched
  /-- How long a fetch takes; one that takes no time is over before the next begins. -/
  delay : Nat
  deriving Repr

structure TableTransport where
  table : List (String × TableEntry)
  /-- Locations asked for, in order. -/
  requests : List String
  /-- Most fetches of listed locations under way at one time. -/
  peak : Nat
  deriving Repr

namespace TableTransport

/-- A later entry takes the place of an earlier one for the same location. -/
def ofEntries (entries : List (String × TableEntry)) : TableTransport := ⟨entries.reverse, [], 0⟩

def entry? (t : TableTransport) (location : String) : Option TableEntry :=
  (t.table.find? (·.1 == location)).map (·.2)

/-- What is said of a location that is not listed. -/
def unlisted (location : String) : Fetched := .error (.status location 404)

def answer (t : TableTransport) (location : String) : Fetched :=
  match t.entry? location with
  | some entry => entry.answer
  | none => unlisted location

/-- Asks for one location, which settles at once unless it is listed with a delay. -/
def start (t : TableTransport) (f : Flight) (location : String) : TableTransport × Flight :=
  let position := f.fetches.length
  let asked := f.request location
  let t := { t with requests := t.requests ++ [location] }
  match t.entry? location with
  | none => (t, asked.settle position (unlisted location))
  | some entry =>
    let t := { t with peak := max t.peak asked.pending }
    if entry.delay = 0 then (t, asked.settle position entry.answer) else (t, asked)

def startAll (t : TableTransport) (f : Flight) : List String → TableTransport × Flight
  | [] => (t, f)
  | location :: rest =>
    let (t, f) := t.start f location
    t.startAll f rest

/-- Settles the fetches at some positions, in the order given. -/
def settleAll (t : TableTransport) (f : Flight) (positions : List Nat) : Flight :=
  positions.foldl (fun f position =>
    match f.requested[position]? with
    | some location => f.settle position (t.answer location)
    | none => f) f

/-- The positions in the order in which their fetches end. -/
def endings (t : TableTransport) (locations : List String) : List Nat :=
  let delayOf (location : String) : Nat := ((t.entry? location).map (·.delay)).getD 0
  ((locations.map delayOf).zipIdx.mergeSort fun a b => a.1 ≤ b.1).map (·.2)

/-- Starts all fetches, lets them end, and gives their outcomes by position. -/
def fetchAll (t : TableTransport) (locations : List String) : List Fetched × TableTransport :=
  let (t, started) := t.startAll .none locations
  let settled := t.settleAll started (t.endings locations)
  (settled.outcomes?.getD [], t)

end TableTransport

/-- Answers from a table. -/
def Transport.table : Transport (StateM TableTransport) where
  name := "memory"
  fetchAll locations := fun t => t.fetchAll locations

end LinkedApi
