import LinkedApi.Toml.Quoted
import LinkedApi.Toml.Scalar
import LinkedApi.Toml.Tables

/-!
# Reading TOML

A text is read into statements, one a line, and the statements are carried out. Values nest at
most 80 deep.
-/

namespace LinkedApi.Toml

def isBareKeyChar (c : Char) : Bool := c.isAlphanum || c = '_' || c = '-'

/-- A comment without control characters, and what follows it on the next line. -/
def skipComment? (cs : List Char) : Option (List Char) :=
  match cs with
  | '#' :: rest =>
    let after := rest.dropWhile fun c => !isControl c
    if after.isEmpty || (lineBreak? after).isSome then some after else none
  | _ => some cs

def skipBlanks (cs : List Char) : List Char := cs.dropWhile isBlank

/-- What follows blanks, comments and line breaks. -/
def skipLines? (fuel : Nat) (cs : List Char) : Option (List Char) :=
  match fuel with
  | 0 => none
  | fuel + 1 => do
    let rest ← skipComment? (skipBlanks cs)
    match lineBreak? rest with
    | some rest => skipLines? fuel rest
    | none => return rest

def simpleKey? (cs : List Char) : Option (String × List Char) :=
  match singleLine? cs with
  | some (key, rest) => some (String.ofList key, rest)
  | none =>
    match cs.span isBareKeyChar with
    | ([], _) => none
    | (key, rest) => some (String.ofList key, rest)

/-- A key, written with dots or not, and what follows it and the blanks after it. -/
def key? (fuel : Nat) (cs : List Char) : Option (List String × List Char) :=
  match fuel with
  | 0 => none
  | fuel + 1 => do
    let (key, rest) ← simpleKey? cs
    match skipBlanks rest with
    | '.' :: rest =>
      let (path, rest) ← key? fuel (skipBlanks rest)
      return (key :: path, rest)
    | rest => return ([key], rest)

/-- Levels of nesting a value may have. -/
def depthLimit : Nat := 80

mutual

/-- A value at the front of a text. `fuel` bounds the characters to read, `depth` the levels of
nesting left. -/
def value? (fuel depth : Nat) (cs : List Char) : Option (Toml × List Char) :=
  match fuel, depth with
  | 0, _ => none
  | _, 0 => none
  | fuel + 1, depth + 1 =>
    match cs with
    | '[' :: rest => do
      let (items, rest) ← items? fuel depth rest
      return (.arr items, rest)
    | '{' :: rest => do
      let (assignments, rest) ←
        match skipBlanks rest with
        | '}' :: rest => some ([], rest)
        | rest => assignments? fuel depth rest
      return (.table .inlined (← inlineEntries? [] assignments), rest)
    | _ =>
      match quoted? cs with
      | some (body, rest) => some (.str (String.ofList body), rest)
      | none =>
        let (word, rest) := scalarText cs
        (scalar? word).map fun value => (value, rest)

/-- The items of an array up to its closing bracket; the last may have a comma after it. -/
def items? (fuel depth : Nat) (cs : List Char) : Option (List Toml × List Char) :=
  match fuel with
  | 0 => none
  | fuel + 1 =>
    match skipLines? (cs.length + 1) cs with
    | none => none
    | some (']' :: rest) => some ([], rest)
    | some start =>
      match value? fuel depth start with
      | none => none
      | some (item, rest) =>
        match skipLines? (rest.length + 1) rest with
        | some (',' :: rest) =>
          (items? fuel depth rest).map fun (items, rest) => (item :: items, rest)
        | some (']' :: rest) => some ([item], rest)
        | _ => none

/-- The assignments of a table between braces that has at least one. -/
def assignments? (fuel depth : Nat) (cs : List Char) :
    Option (List (List String × Toml) × List Char) :=
  match fuel with
  | 0 => none
  | fuel + 1 =>
    match key? (cs.length + 1) (skipBlanks cs) with
    | some (path, '=' :: rest) =>
      match value? fuel depth (skipBlanks rest) with
      | none => none
      | some (value, rest) =>
        match skipBlanks rest with
        | ',' :: rest =>
          (assignments? fuel depth rest).map fun (more, rest) => ((path, value) :: more, rest)
        | '}' :: rest => some ([(path, value)], rest)
        | _ => none
    | _ => none

end

/-- One statement at the front of a text, and what follows it on its line. -/
def statement? (cs : List Char) : Option (Statement × List Char) :=
  match cs with
  | '[' :: '[' :: rest => do
    match ← key? (rest.length + 1) (skipBlanks rest) with
    | (path, ']' :: ']' :: rest) => return (.arrayHeader path, rest)
    | _ => none
  | '[' :: rest => do
    match ← key? (rest.length + 1) (skipBlanks rest) with
    | (path, ']' :: rest) => return (.header path, rest)
    | _ => none
  | _ => do
    match ← key? (cs.length + 1) cs with
    | (path, '=' :: rest) =>
      let (value, rest) ← value? (2 * rest.length + 2) depthLimit (skipBlanks rest)
      return (.assignment path value, rest)
    | _ => none

/-- The statements of a text. -/
def statements? (fuel : Nat) (cs : List Char) : Option (List Statement) :=
  match fuel with
  | 0 => none
  | fuel + 1 => do
    match ← skipLines? (cs.length + 1) cs with
    | [] => return []
    | start =>
      let (statement, rest) ← statement? start
      let rest ← skipComment? (skipBlanks rest)
      if rest.isEmpty || (lineBreak? rest).isSome then
        return statement :: (← statements? fuel rest)
      else none

/-- The entries that a text sets; a byte order mark before it does not count. -/
def parse? (text : String) : Option Entries := do
  let cs :=
    match text.toList with
    | '\uFEFF' :: rest => rest
    | cs => cs
  carryOut? [] [] (← statements? (cs.length + 1) cs)

end LinkedApi.Toml
