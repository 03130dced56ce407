import LinkedApi.Json.Record

/-!
# Data sources

What the queries of the generated service are answered from.
-/

namespace LinkedApi

structure DataSource where
  /-- Kind of source, such as `sparql` or `file`. -/
  type : String
  /-- Where the source is. -/
  value : String
  deriving DecidableEq, Repr

namespace DataSource

def toJson (s : DataSource) : Json := .obj [("type", .str s.type), ("value", .str s.value)]

def ofJson? (j : Json) : Option DataSource := do
  match ← j.record? ["type", "value"] with
  | [some type, some value] => return { type := ← type.string?, value := ← value.string? }
  | _ => none

end DataSource

end LinkedApi
