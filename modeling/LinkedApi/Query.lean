import LinkedApi.Method
import LinkedApi.Text.Identifier

/-!
# Queries

The query bound to one operation. Its name follows from the operation, so that the generated
modules can refer to it.
-/

namespace LinkedApi

structure Query where
  name : String
  /-- The query in a single line. -/
  text : String
  /-- What the names in the query mean. -/
  context : Json
  deriving Repr

namespace Query

/-- The name of an operation's query: the method and the ASCII letters of the path. -/
def nameOf (method : Method) (path : String) : String :=
  String.ofList (method.name.toList ++ path.toList.filter Text.isLetter)

def toJson (q : Query) : Json :=
  .obj [("name", .str q.name), ("query", .str q.text), ("context", q.context)]

def ofJson? (j : Json) : Option Query := do
  match ← j.record? ["name", "query", "context"] with
  | [some name, some text, some context] =>
    return { name := ← name.string?, text := ← text.string?, context := context.normal }
  | _ => none

end Query

end LinkedApi
