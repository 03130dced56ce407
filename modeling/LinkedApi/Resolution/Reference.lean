import LinkedApi.Location
import LinkedApi.Yaml.Basic

/-!
# References

A mapping with a string under `$ref` stands for the node that the string names: a document, and
after a number sign a pointer into it. Without a document the pointer is into its own document.
-/

namespace LinkedApi

structure Reference where
  /-- The document as written, empty for the document that holds the reference. -/
  target : String
  /-- The pointer, if there is a number sign. -/
  fragment : Option String
  deriving DecidableEq, Repr

namespace Reference

def ofText (text : String) : Reference :=
  match Text.splitFirst? '#' text.toList with
  | some (target, fragment) => ⟨String.ofList target, some (String.ofList fragment)⟩
  | none => ⟨text, none⟩

/-- The reference as written in a mapping, if the mapping is one. -/
def written? (entries : List (Yaml × Yaml)) : Option String :=
  (Yaml.lookup? entries "$ref").bind Yaml.text?

end Reference

namespace Yaml

mutual

/-- The references in a tree, also those inside a mapping that is itself a reference, which only
a pointer reaches. -/
def references : Yaml → List String
  | .map entries => (Reference.written? entries).toList ++ entryReferences entries
  | .seq items => itemReferences items
  | .tagged _ value => references value
  | _ => []

def itemReferences : List Yaml → List String
  | [] => []
  | item :: rest => references item ++ itemReferences rest

def entryReferences : List (Yaml × Yaml) → List String
  | [] => []
  | (_, value) :: rest => references value ++ entryReferences rest

end

end Yaml

end LinkedApi
