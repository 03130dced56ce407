import LinkedApi.Json.Basic

/-!
# Records in JSON

A record with named fields is given as an object, whose unknown fields do not count and whose
known fields stand at most once, or as an array of its fields in order.
-/

namespace LinkedApi.Json

/-- The one value of a field: `some none` when it is not given, `none` when it is given twice. -/
def single? (fields : List (String × Json)) (name : String) : Option (Option Json) :=
  match fields.filter (·.1 == name) with
  | [] => some none
  | [(_, value)] => some (some value)
  | _ => none

/-- The values of a record's fields, in the order of their names. -/
def record? (names : List String) : Json → Option (List (Option Json))
  | .obj fields => names.mapM (single? fields)
  | .arr items =>
    if items.length ≤ names.length then
      some (items.map some ++ List.replicate (names.length - items.length) none)
    else none
  | _ => none

def string? : Json → Option String
  | .str s => some s
  | _ => none

/-- A natural number of 64 bits. -/
def word? : Json → Option Nat
  | .int n => if 0 ≤ n ∧ n < twoTo 64 then some n.toNat else none
  | _ => none

/-- The name of a constant, given as a string or as the only key of an object over null. -/
def constant? : Json → Option String
  | .str s => some s
  | .obj [(name, .null)] => some name
  | _ => none

/-- A field that may be left out or null. -/
def optional? (read : Json → Option α) : Option Json → Option (Option α)
  | none => some none
  | some .null => some none
  | some value => (read value).map some

end LinkedApi.Json
