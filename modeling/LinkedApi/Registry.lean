import LinkedApi.Json.Record

/-!
# The roster of committed names

Every name that a generated module exports is registered, once, before the text that defines it
is written. Queries and pipe modules have their names apart.
-/

namespace LinkedApi

/-- What a registered name belongs to. -/
inductive NameKind where
  | query
  | pipeModule
  deriving DecidableEq, Repr

namespace NameKind

def label : NameKind → String
  | .query => "query"
  | .pipeModule => "pipe-module"

def constructorName : NameKind → String
  | .query => "Query"
  | .pipeModule => "PipeModule"

def toJson (k : NameKind) : Json := .str k.constructorName

def ofJson? (j : Json) : Option NameKind :=
  j.constant?.bind fun name => [query, pipeModule].find? (·.constructorName == name)

end NameKind

/-- Two declarations share a name. -/
structure DuplicateName where
  kind : NameKind
  name : String
  /-- Where the declarations are, if that is known. -/
  context : Option String
  deriving DecidableEq, Repr

def DuplicateName.message (d : DuplicateName) : String :=
  let place := (d.context.map fun c => s!" ({c})").getD ""
  s!"duplicate {d.kind.label} name '{d.name}'{place}"

/-- The names registered so far, in order. -/
structure Registry where
  entries : List (NameKind × String)
  deriving Repr

namespace Registry

def empty : Registry := ⟨[]⟩

/-- The names of one kind, in the order of their registration. -/
def names (r : Registry) (kind : NameKind) : List String :=
  (r.entries.filter (·.1 = kind)).map (·.2)

def contains (r : Registry) (kind : NameKind) (name : String) : Bool :=
  r.entries.contains (kind, name)

def last? (r : Registry) (kind : NameKind) : Option String := (r.names kind).getLast?

def count (r : Registry) (kind : NameKind) : Nat := (r.names kind).length

/-- Adds a name; one that is registered already is refused. -/
def register (r : Registry) (kind : NameKind) (name : String) : Except DuplicateName Registry :=
  if r.contains kind name then .error ⟨kind, name, none⟩
  else .ok ⟨r.entries ++ [(kind, name)]⟩

end Registry

end LinkedApi
