import LinkedApi.Transport.Basic

/-!
# Fetches under way

Fetches that are made at once settle in any order. Each keeps the position in which it was asked
for, and the outcomes are read by position when all of them are there.
-/

namespace LinkedApi

/-- Locations asked for, in order, with the outcomes of those that have settled. -/
structure Flight where
  fetches : List (String × Option Fetched)
  deriving Repr

namespace Flight

def none : Flight := ⟨[]⟩

/-- Asks for one more location. -/
def request (f : Flight) (location : String) : Flight := ⟨f.fetches ++ [(location, Option.none)]⟩

/-- The outcome at a position arrives; one that is there already stays. -/
def settle (f : Flight) (position : Nat) (outcome : Fetched) : Flight :=
  ⟨f.fetches.modify position fun (location, known) => (location, known.or (some outcome))⟩

def requested (f : Flight) : List String := f.fetches.map (·.1)

/-- How many fetches have not settled. -/
def pending (f : Flight) : Nat := f.fetches.countP (·.2.isNone)

/-- The outcomes by position, once every fetch has settled. -/
def outcomes? (f : Flight) : Option (List Fetched) := f.fetches.mapM (·.2)

end Flight

end LinkedApi
