import LinkedApi.Yaml.Node
import LinkedApi.Yaml.Plain
import LinkedApi.Yaml.Token.Lexer

/-!
# YAML documents

The value of a text: aliases are replaced by what their anchors stand for, scalars are typed, and
a mapping with two equal keys is refused. Collections nest at most 128 deep, and the number of
aliases followed is bounded by the size of the document.
-/

namespace LinkedApi.Yaml

/-- A value with what it took to build it. -/
structure Composed where
  value : Yaml
  /-- Levels of collections in the value. -/
  depth : Nat
  /-- Aliases followed on the way. -/
  aliases : Nat

/-- What anchors stand for, the latest first; an anchor whose node is not complete has none. -/
abbrev Anchors := List (String × Option Composed)

namespace Composed

/-- Levels of collections a value may have. -/
def depthLimit : Nat := 128

/-- Puts a value under the local tag of its node. A tag that is only an exclamation mark is written
with two, and one that is not local is ignored. -/
private def withTag (tag : Option String) (value : Yaml) : Yaml :=
  match tag.map String.toList with
  | some ['!'] => .tagged "!!" value
  | some ('!' :: name) => .tagged (String.ofList ('!' :: name)) value
  | _ => value

private def scalar? (tag : Option String) (text : String) (style : ScalarStyle) : Option Yaml :=
  let typed := if style = .plain then Plain.value? text else some (.str text)
  match tag with
  | none => typed
  | some t => if t.toList.head? = some '!' then typed.map (withTag tag) else Plain.coreValue? t text

private def define (anchor : Option String) (value : Option Composed) (anchors : Anchors) :
    Anchors :=
  match anchor with
  | some name => (name, value) :: anchors
  | none => anchors

/-- Gives the anchor of a collection its value: an anchor of the same name inside the collection
is later and stays in force. `outer` counts the anchors before the collection. -/
private def complete (anchor : Option String) (outer : Nat) (value : Composed)
    (anchors : Anchors) : Anchors :=
  match anchor with
  | some name => anchors.set (anchors.length - 1 - outer) (name, some value)
  | none => anchors

private def hasEqualKeys : List (Yaml × Yaml) → Bool
  | [] => false
  | (key, _) :: rest => rest.any (key.same ·.1) || hasEqualKeys rest

/-- A collection around its parts. -/
private def wrap? (properties : Properties) (value : Yaml) (depth aliases : Nat) :
    Option Composed := do
  if depthLimit ≤ depth then none
  else return { value := withTag properties.tag value, depth := depth + 1, aliases }

mutual

private def ofNode? (anchors : Anchors) : Node → Option (Composed × Anchors)
  | .alias name =>
    match anchors.find? (·.1 == name) with
    | some (_, some found) => some ({ found with aliases := found.aliases + 1 }, anchors)
    | _ => none
  | .scalar properties text style => do
    let value ← scalar? properties.tag text style
    let composed : Composed := ⟨value, 0, 0⟩
    return (composed, define properties.anchor composed anchors)
  | .sequence properties items => do
    let outer := anchors.length
    let (items, depth, aliases, anchors) ← ofItems? (define properties.anchor none anchors) items
    let composed ← wrap? properties (.seq items) depth aliases
    return (composed, complete properties.anchor outer composed anchors)
  | .mapping properties entries => do
    let outer := anchors.length
    let (entries, depth, aliases, anchors) ←
      ofEntries? (define properties.anchor none anchors) entries
    if hasEqualKeys entries then none
    else
      let composed ← wrap? properties (.map entries) depth aliases
      return (composed, complete properties.anchor outer composed anchors)

/-- The items with their greatest depth and the aliases they follow. -/
private def ofItems? (anchors : Anchors) : List Node → Option (List Yaml × Nat × Nat × Anchors)
  | [] => some ([], 0, 0, anchors)
  | item :: rest => do
    let (item, anchors) ← ofNode? anchors item
    let (items, depth, aliases, anchors) ← ofItems? anchors rest
    return (item.value :: items, max item.depth depth, item.aliases + aliases, anchors)

/-- The same for the entries of a mapping. -/
private def ofEntries? (anchors : Anchors) :
    List (Node × Node) → Option (List (Yaml × Yaml) × Nat × Nat × Anchors)
  | [] => some ([], 0, 0, anchors)
  | (key, value) :: rest => do
    let (key, anchors) ← ofNode? anchors key
    let (value, anchors) ← ofNode? anchors value
    let (entries, depth, aliases, anchors) ← ofEntries? anchors rest
    return ((key.value, value.value) :: entries, max (max key.depth value.depth) depth,
      key.aliases + value.aliases + aliases, anchors)

end

mutual

/-- How many events a node takes: its start, its end and those of its parts. -/
private def size : Node → Nat
  | .alias _ => 1
  | .scalar .. => 1
  | .sequence _ items => sizeItems items + 2
  | .mapping _ entries => sizeEntries entries + 2

private def sizeItems : List Node → Nat
  | [] => 0
  | item :: rest => size item + sizeItems rest

private def sizeEntries : List (Node × Node) → Nat
  | [] => 0
  | (key, value) :: rest => size key + size value + sizeEntries rest

end

/-- The value of a root node. -/
def root? (node : Node) : Option Yaml := do
  let (composed, _) ← ofNode? [] node
  if size node * 100 < composed.aliases then none else return composed.value

end Composed

/-- The value of the only document in a text; a text without a document is null. -/
def parse? (text : String) : Option Yaml := do
  let tokens ← tokens? text.toList
  match ← Node.ofTokens? tokens with
  | some root => Composed.root? root
  | none => return .null

end LinkedApi.Yaml
