import LinkedApi.Json.Printer
import LinkedApi.Yaml.Basic

/-!
# YAML values as JSON

Scalar keys become strings; a key that is null, a collection or tagged has no JSON form, and
neither has a float key that is not finite. Such a float as a value becomes null, and a tagged
value becomes an object whose only key is the tag.
-/

namespace LinkedApi.Yaml

/-- Why a mapping has no JSON form. -/
inductive KeyProblem where
  | notScalar
  | notFinite
  deriving DecidableEq, Repr

def KeyProblem.message : KeyProblem → String
  | .notScalar => "key must be a string"
  | .notFinite => "float key must be finite (got NaN or +/-inf)"

def jsonKey : Yaml → Except KeyProblem String
  | .str s => .ok s
  | .bool b => .ok (if b then "true" else "false")
  | .int n => .ok (String.ofList (Text.decimalInt n))
  | .float x =>
    if x.isFinite then .ok (String.ofList (Json.encodeFinite x)) else .error .notFinite
  | _ => .error .notScalar

mutual

def toJson : Yaml → Except KeyProblem Json
  | .null => .ok .null
  | .bool b => .ok (.bool b)
  | .int n => .ok (.int n)
  | .float x => .ok (if x.isFinite then .float x else .null)
  | .str s => .ok (.str s)
  | .seq items => do return .arr (← toJsonItems items)
  | .map entries => do return .obj (Json.setFields (← toJsonFields entries))
  | .tagged tag value => do return .obj [(tag, ← toJson value)]

def toJsonItems : List Yaml → Except KeyProblem (List Json)
  | [] => .ok []
  | item :: rest => do return (← toJson item) :: (← toJsonItems rest)

def toJsonFields : List (Yaml × Yaml) → Except KeyProblem (List (String × Json))
  | [] => .ok []
  | (key, value) :: rest => do
    let key ← jsonKey key
    let value ← toJson value
    return (key, value) :: (← toJsonFields rest)

end

end LinkedApi.Yaml
