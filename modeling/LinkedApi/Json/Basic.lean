import LinkedApi.Decimal.Binary64

/-!
# JSON values

Objects keep their fields in order. Integers are apart from the other numbers, because they are
kept exactly.
-/

namespace LinkedApi

inductive Json where
  | null
  | bool (value : Bool)
  | int (value : Int)
  | float (value : Binary64)
  | str (value : String)
  | arr (items : List Json)
  | obj (fields : List (String × Json))
  deriving Repr, Inhabited

namespace Json

/-- Puts a field in place: a new key goes last, a known key keeps its position. -/
def setField (fields : List (String × Json)) (key : String) (value : Json) :
    List (String × Json) :=
  match fields with
  | [] => [(key, value)]
  | (k, v) :: rest =>
    if k = key then (k, value) :: rest else (k, v) :: setField rest key value

/-- The fields in order, each key once: a repeated key keeps its first position and takes its
last value. -/
def setFields (fields : List (String × Json)) : List (String × Json) :=
  fields.foldl (fun known field => setField known field.1 field.2) []

mutual

/-- The value with every key of its objects once. -/
def normal : Json → Json
  | .arr items => .arr (normalItems items)
  | .obj fields => .obj (setFields (normalFields fields))
  | other => other

def normalItems : List Json → List Json
  | [] => []
  | item :: rest => normal item :: normalItems rest

def normalFields : List (String × Json) → List (String × Json)
  | [] => []
  | (key, value) :: rest => (key, normal value) :: normalFields rest

end

end Json

end LinkedApi
