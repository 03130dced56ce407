import LinkedApi.Json.Record

/-!
# HTTP methods

The six verbs a route may be bound to. They are written in lower case.
-/

namespace LinkedApi

inductive Method where
  | get
  | post
  | put
  | delete
  | head
  | patch
  deriving DecidableEq, Repr

namespace Method

/-- Every method, in canonical order. -/
def all : List Method := [.get, .post, .put, .delete, .head, .patch]

def name : Method → String
  | .get => "get"
  | .post => "post"
  | .put => "put"
  | .delete => "delete"
  | .head => "head"
  | .patch => "patch"

def upperName : Method → String
  | .get => "GET"
  | .post => "POST"
  | .put => "PUT"
  | .delete => "DELETE"
  | .head => "HEAD"
  | .patch => "PATCH"

/-- The method of a name; upper case is not recognised. -/
def ofName? (name : String) : Option Method := all.find? (·.name == name)

/-- What is said of a name that no method has. -/
def unknownMessage (name : String) : String := s!"unrecognized HTTP method '{name}'"

def toJson (m : Method) : Json := .str m.name

def ofJson? (j : Json) : Option Method := j.constant?.bind ofName?

end Method

end LinkedApi
