import LinkedApi.Json.Basic

/-!
# TOML values

The values of a configuration text. Numbers with a fraction and dates are kept as they are
written.
-/

namespace LinkedApi

/-- How a table came to be, which decides how it may grow. -/
inductive TableOrigin where
  /-- On the way to a table that has a header. -/
  | implied
  | header
  /-- On the way to a key that is written with dots. -/
  | dotted
  /-- As a value between braces; such a table does not grow. -/
  | inlined
  deriving DecidableEq, Repr

inductive Toml where
  | str (value : String)
  | int (value : Int)
  | float (written : String)
  | bool (value : Bool)
  | date (written : String)
  | arr (items : List Toml)
  | table (origin : TableOrigin) (entries : List (String × Toml))
  /-- Tables that share one name, in order. -/
  | tables (elements : List Toml)
  deriving Repr, Inhabited

namespace Toml

mutual

/-- The value as JSON; a date becomes an object of its own kind. -/
def toJson : Toml → Json
  | .str s => .str s
  | .int n => .int n
  | .float _ => .float (.zero false)
  | .bool b => .bool b
  | .date written => .obj [("date", .str written)]
  | .arr items => .arr (itemsToJson items)
  | .table _ entries => .obj (entriesToJson entries)
  | .tables elements => .arr (itemsToJson elements)

def itemsToJson : List Toml → List Json
  | [] => []
  | item :: rest => item.toJson :: itemsToJson rest

def entriesToJson : List (String × Toml) → List (String × Json)
  | [] => []
  | (key, value) :: rest => (key, value.toJson) :: entriesToJson rest

end

end Toml

end LinkedApi
