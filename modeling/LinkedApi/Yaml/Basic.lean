import LinkedApi.Decimal.Binary64

/-!
# YAML values

The tree of a document: scalars, sequences, mappings that keep the order of their entries, and
values under a local tag. A key may be any value.
-/

namespace LinkedApi

inductive Yaml where
  | null
  | bool (value : Bool)
  | int (value : Int)
  | float (value : Binary64)
  | str (value : String)
  | seq (items : List Yaml)
  | map (entries : List (Yaml × Yaml))
  | tagged (tag : String) (value : Yaml)
  deriving Repr, Inhabited

namespace Yaml

/-- What a node is, in the words of error messages. -/
def kind : Yaml → String
  | .null => "null"
  | .bool _ => "a boolean"
  | .int _ => "a number"
  | .float _ => "a number"
  | .str _ => "a string"
  | .seq _ => "a sequence"
  | .map _ => "a mapping"
  | .tagged _ _ => "a tagged value"

/-- The string a node holds, whatever tags stand before it. -/
def text? : Yaml → Option String
  | .str s => some s
  | .tagged _ value => value.text?
  | _ => none

/-- The value under a plain string key. A tagged key is another key. -/
def lookup? (entries : List (Yaml × Yaml)) (key : String) : Option Yaml :=
  match entries with
  | [] => none
  | (.str k, value) :: rest => if k = key then some value else lookup? rest key
  | _ :: rest => lookup? rest key

/-- The value under a key of the mapping that a node holds, whatever tags stand before it. -/
def get? (key : String) : Yaml → Option Yaml
  | .map entries => lookup? entries key
  | .tagged _ value => value.get? key
  | _ => none

mutual

/-- Equality of typed values. The entries of a mapping may stand in any order. -/
def same : Yaml → Yaml → Bool
  | .null, .null => true
  | .bool a, .bool b => a == b
  | .int a, .int b => a == b
  | .float a, .float b => a.same b
  | .str a, .str b => a == b
  | .seq xs, .seq ys => sameItems xs ys
  | .map xs, .map ys => xs.length == ys.length && sameEntries xs ys
  | .tagged s x, .tagged t y => s == t && same x y
  | _, _ => false

def sameItems : List Yaml → List Yaml → Bool
  | [], [] => true
  | x :: xs, y :: ys => same x y && sameItems xs ys
  | _, _ => false

/-- Whether each entry has an equal one among the others. -/
def sameEntries : List (Yaml × Yaml) → List (Yaml × Yaml) → Bool
  | [], _ => true
  | (key, value) :: rest, others =>
    others.any (fun other => same key other.1 && same value other.2) && sameEntries rest others

end

end Yaml

end LinkedApi
