import LinkedApi.Json.Record

/-!
# Pipe modules

A step applied to the result of a query. It is declared by its name and the location of its
code; loading it adds the code.
-/

namespace LinkedApi

/-- A declared step. -/
structure PipeReference where
  name : String
  source : String
  deriving DecidableEq, Repr

/-- A step with its code, a function expression without blank space around it. -/
structure PipeModule where
  name : String
  source : String
  code : String
  deriving DecidableEq, Repr

namespace PipeReference

def withCode (r : PipeReference) (code : String) : PipeModule :=
  { name := r.name, source := r.source, code }

def toJson (r : PipeReference) : Json := .obj [("name", .str r.name), ("source", .str r.source)]

def ofJson? (j : Json) : Option PipeReference := do
  match ← j.record? ["name", "source"] with
  | [some name, some source] => return { name := ← name.string?, source := ← source.string? }
  | _ => none

end PipeReference

namespace PipeModule

def toJson (m : PipeModule) : Json :=
  .obj [("name", .str m.name), ("source", .str m.source), ("code", .str m.code)]

def ofJson? (j : Json) : Option PipeModule := do
  match ← j.record? ["name", "source", "code"] with
  | [some name, some source, some code] =>
    return { name := ← name.string?, source := ← source.string?, code := ← code.string? }
  | _ => none

end PipeModule

end LinkedApi
