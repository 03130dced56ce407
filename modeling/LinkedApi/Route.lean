import LinkedApi.Method

/-!
# Routes

A route is a method with a path in the syntax of the generated router, where a parameter is
written `:name`. In a specification it is written between braces and may be escaped by
backslashes, which do not count.
-/

namespace LinkedApi

structure Route where
  method : Method
  path : String
  deriving DecidableEq, Repr

namespace Route

/-- Characters that cannot stand in the name of a parameter. -/
def endsName (c : Char) : Bool := c = '{' || c = '}' || c = '/'

/-- Writes each `{name}` as `:name`. `opened` holds, in reverse, what stands since a brace that
may open a parameter. -/
def convertParameters (opened : Option (List Char)) : List Char → List Char
  | [] => (opened.map fun name => '{' :: name.reverse).getD []
  | c :: rest =>
    match opened with
    | none => if c = '{' then convertParameters (some []) rest else c :: convertParameters none rest
    | some name =>
      if c = '}' ∧ name ≠ [] then ':' :: name.reverse ++ convertParameters none rest
      else if c = '{' then '{' :: name.reverse ++ convertParameters (some []) rest
      else if endsName c then '{' :: name.reverse ++ c :: convertParameters none rest
      else convertParameters (some (c :: name)) rest

def unescape (cs : List Char) : List Char := cs.filter (· ≠ '\\')

/-- A declared path in the syntax of the router. -/
def routerPath (declared : String) : String :=
  String.ofList (convertParameters none (unescape declared.toList))

def toString (r : Route) : String := r.method.upperName ++ " " ++ r.path

def toJson (r : Route) : Json := .obj [("method", r.method.toJson), ("path", .str r.path)]

def ofJson? (j : Json) : Option Route := do
  match ← j.record? ["method", "path"] with
  | [some method, some path] =>
    return { method := ← Method.ofJson? method, path := ← path.string? }
  | _ => none

end Route

end LinkedApi
