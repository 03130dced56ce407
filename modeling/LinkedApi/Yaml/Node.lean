import LinkedApi.Yaml.Token

/-!
# Nodes of a YAML document

The tree that the tokens of one document spell out, with its anchors and aliases still in place
and every tag written in full.
-/

namespace LinkedApi.Yaml

/-- The anchor and the full tag before a node. -/
structure Properties where
  anchor : Option String
  tag : Option String
  deriving Repr

inductive Node where
  | alias (name : String)
  | scalar (properties : Properties) (text : String) (style : ScalarStyle)
  | sequence (properties : Properties) (items : List Node)
  | mapping (properties : Properties) (entries : List (Node × Node))
  deriving Repr

namespace Node

/-- A node that is not written. -/
def absent : Node := .scalar ⟨none, none⟩ "" .plain

/-- What the handles of tags stand for in a document. -/
structure Shorthands where
  declared : List (String × String)

def Shorthands.expand? (s : Shorthands) (handle : String) : Option String :=
  match s.declared.find? (·.1 == handle) with
  | some (_, expansion) => some expansion
  | none =>
    if handle = "!" then some "!"
    else if handle = "!!" then some "tag:yaml.org,2002:"
    else none

private def Shorthands.tag? (s : Shorthands) (name : TagName) : Option String :=
  if name.handle.isEmpty then some name.suffix
  else (s.expand? name.handle).map (· ++ name.suffix)

/-- The properties in front of a node: an anchor and a tag in either order. -/
private def properties? (s : Shorthands) : List Token → Option (Properties × List Token)
  | .anchor a :: .tag t :: rest => do return (⟨some a, some (← s.tag? t)⟩, rest)
  | .tag t :: .anchor a :: rest => do return (⟨some a, some (← s.tag? t)⟩, rest)
  | .anchor a :: rest => some (⟨some a, none⟩, rest)
  | .tag t :: rest => do return (⟨none, some (← s.tag? t)⟩, rest)
  | rest => some (⟨none, none⟩, rest)

/-- Where a node stands, which decides the forms it may take. -/
private inductive Place where
  | flow
  | block
  /-- The key or value of a block mapping: a sequence there needs no indentation. -/
  | blockEntry
  deriving DecidableEq

private def first (tokens : List Token) (test : Token → Bool) : Bool := tokens.head?.any test

private def endsFlowPair : Token → Bool
  | .value => true
  | .flowEntry => true
  | .flowSequenceEnd => true
  | _ => false

private def endsFlowEntry : Token → Bool
  | .flowEntry => true
  | .flowSequenceEnd => true
  | _ => false

private def endsFlowKey : Token → Bool
  | .value => true
  | .flowEntry => true
  | .flowMappingEnd => true
  | _ => false

private def endsFlowValue : Token → Bool
  | .flowEntry => true
  | .flowMappingEnd => true
  | _ => false

private def endsBlockItem : Token → Bool
  | .blockEntry => true
  | .blockEnd => true
  | _ => false

private def endsLooseItem : Token → Bool
  | .blockEntry => true
  | .key => true
  | .value => true
  | .blockEnd => true
  | _ => false

private def endsBlockEntry : Token → Bool
  | .key => true
  | .value => true
  | .blockEnd => true
  | _ => false

mutual

private def node? (s : Shorthands) (fuel : Nat) (place : Place) (tokens : List Token) :
    Option (Node × List Token) :=
  match fuel with
  | 0 => none
  | fuel + 1 =>
    match tokens with
    | .alias name :: rest => some (.alias name, rest)
    | _ => do
      let (properties, rest) ← properties? s tokens
      match rest, place with
      | .blockEntry :: _, .blockEntry =>
        let (items, rest) ← looseItems? s fuel rest
        return (.sequence properties items, rest)
      | .scalar text style :: rest, _ =>
        let tag := properties.tag.filter fun tag => !(tag = "!")
        return (.scalar { properties with tag } text style, rest)
      | .flowSequenceStart :: rest, _ =>
        let (items, rest) ← flowItems? s fuel true rest
        return (.sequence properties items, rest)
      | .flowMappingStart :: rest, _ =>
        let (entries, rest) ← flowEntries? s fuel true rest
        return (.mapping properties entries, rest)
      | .blockSequenceStart :: rest, place =>
        if place = .flow then none
        else
          let (items, rest) ← blockItems? s fuel rest
          return (.sequence properties items, rest)
      | .blockMappingStart :: rest, place =>
        if place = .flow then none
        else
          let (entries, rest) ← blockEntries? s fuel rest
          return (.mapping properties entries, rest)
      | rest, _ =>
        if properties.anchor.isNone && properties.tag.isNone then none
        else return (.scalar properties "" .plain, rest)

/-- A node that may be left out before certain tokens. -/
private def optionalNode? (s : Shorthands) (fuel : Nat) (place : Place) (ends : Token → Bool)
    (tokens : List Token) : Option (Node × List Token) :=
  match fuel with
  | 0 => none
  | fuel + 1 =>
    if first tokens ends then some (absent, tokens) else node? s fuel place tokens

private def blockItems? (s : Shorthands) (fuel : Nat) (tokens : List Token) :
    Option (List Node × List Token) :=
  match fuel, tokens with
  | fuel + 1, .blockEntry :: rest => do
    let (item, rest) ← optionalNode? s fuel .block endsBlockItem rest
    let (items, rest) ← blockItems? s fuel rest
    return (item :: items, rest)
  | _, .blockEnd :: rest => some ([], rest)
  | _, _ => none

/-- The items of a sequence in block style that stands at the indentation of its key. -/
private def looseItems? (s : Shorthands) (fuel : Nat) (tokens : List Token) :
    Option (List Node × List Token) :=
  match fuel, tokens with
  | 0, _ => none
  | fuel + 1, .blockEntry :: rest => do
    let (item, rest) ← optionalNode? s fuel .block endsLooseItem rest
    let (items, rest) ← looseItems? s fuel rest
    return (item :: items, rest)
  | _, tokens => some ([], tokens)

private def blockEntries? (s : Shorthands) (fuel : Nat) (tokens : List Token) :
    Option (List (Node × Node) × List Token) :=
  match fuel, tokens with
  | 0, _ => none
  | _, .blockEnd :: rest => some ([], rest)
  | fuel + 1, .key :: rest => do
    let (key, rest) ← optionalNode? s fuel .blockEntry endsBlockEntry rest
    let (value, rest) ← blockValue? s fuel rest
    let (entries, rest) ← blockEntries? s fuel rest
    return ((key, value) :: entries, rest)
  | _, _ => none

private def blockValue? (s : Shorthands) (fuel : Nat) (tokens : List Token) :
    Option (Node × List Token) :=
  match fuel, tokens with
  | 0, _ => none
  | fuel + 1, .value :: rest => optionalNode? s fuel .blockEntry endsBlockEntry rest
  | _, tokens => some (absent, tokens)

private def flowItems? (s : Shorthands) (fuel : Nat) (isFirst : Bool) (tokens : List Token) :
    Option (List Node × List Token) :=
  match fuel with
  | 0 => none
  | fuel + 1 =>
    match tokens with
    | .flowSequenceEnd :: rest => some ([], rest)
    | .flowEntry :: rest => if isFirst then none else flowItem? s fuel rest
    | tokens => if isFirst then flowItem? s fuel tokens else none

/-- An item and those after it; after a comma there may be no item. -/
private def flowItem? (s : Shorthands) (fuel : Nat) (tokens : List Token) :
    Option (List Node × List Token) :=
  match fuel with
  | 0 => none
  | fuel + 1 =>
    match tokens with
    | .flowSequenceEnd :: rest => some ([], rest)
    | .key :: rest => do
      let (entry, rest) ← flowPair? s fuel rest
      let (items, rest) ← flowItems? s fuel false rest
      return (.mapping ⟨none, none⟩ [entry] :: items, rest)
    | tokens => do
      let (item, rest) ← node? s fuel .flow tokens
      let (items, rest) ← flowItems? s fuel false rest
      return (item :: items, rest)

/-- A mapping of one entry written as an item. Where its key is left out, the token after the
question mark is skipped. -/
private def flowPair? (s : Shorthands) (fuel : Nat) (tokens : List Token) :
    Option ((Node × Node) × List Token) :=
  match fuel with
  | 0 => none
  | fuel + 1 => do
    let (key, rest) ←
      if first tokens endsFlowPair then some (absent, tokens.drop 1)
      else node? s fuel .flow tokens
    match rest with
    | .value :: rest =>
      let (value, rest) ← optionalNode? s fuel .flow endsFlowEntry rest
      return ((key, value), rest)
    | rest => return ((key, absent), rest)

private def flowEntries? (s : Shorthands) (fuel : Nat) (isFirst : Bool) (tokens : List Token) :
    Option (List (Node × Node) × List Token) :=
  match fuel with
  | 0 => none
  | fuel + 1 =>
    match tokens with
    | .flowMappingEnd :: rest => some ([], rest)
    | .flowEntry :: rest => if isFirst then none else flowEntry? s fuel rest
    | tokens => if isFirst then flowEntry? s fuel tokens else none

/-- An entry and those after it; after a comma there may be no entry. -/
private def flowEntry? (s : Shorthands) (fuel : Nat) (tokens : List Token) :
    Option (List (Node × Node) × List Token) :=
  match fuel with
  | 0 => none
  | fuel + 1 =>
    match tokens with
    | .flowMappingEnd :: rest => some ([], rest)
    | .key :: rest => do
      let (key, rest) ← optionalNode? s fuel .flow endsFlowKey rest
      let (value, rest) ←
        match rest with
        | .value :: rest => optionalNode? s fuel .flow endsFlowValue rest
        | rest => some (absent, rest)
      let (entries, rest) ← flowEntries? s fuel false rest
      return ((key, value) :: entries, rest)
    | tokens => do
      let (key, rest) ← node? s fuel .flow tokens
      let (entries, rest) ← flowEntries? s fuel false rest
      return ((key, absent) :: entries, rest)

end

/-- What stands before the mark that starts a document: directives, each at most once. -/
private def directives? : List Token → Bool → List (String × String) →
    Option (Shorthands × Bool × List Token)
  | .version major minor :: rest, versioned, declared =>
    if versioned || !(major = 1 && (minor = 1 || minor = 2)) then none
    else directives? rest true declared
  | .tagShorthand handle expansion :: rest, versioned, declared =>
    if declared.any (·.1 == handle) then none
    else directives? rest versioned (declared ++ [(handle, expansion)])
  | rest, versioned, declared => some (⟨declared⟩, versioned || !declared.isEmpty, rest)

private def startsContent : Token → Bool
  | .version .. => false
  | .tagShorthand .. => false
  | .documentStart => false
  | .documentEnd => false
  | _ => true

/-- The root of the only document, and the tokens after it. -/
private def root? (tokens : List Token) : Option (Option Node × List Token) := do
  let fuel := 4 * tokens.length + 4
  let (shorthands, anyDirective, rest) ← directives? tokens false []
  match rest with
  | .documentStart :: rest =>
    if first rest startsContent then
      let (node, rest) ← node? shorthands fuel .block rest
      return (some node, rest)
    else return (some absent, rest)
  | [] => if anyDirective then none else return (none, [])
  | rest =>
    if anyDirective then none
    else
      let (node, rest) ← node? shorthands fuel .block rest
      return (some node, rest)

/-- The root node of a text's tokens: `some none` without any document, `none` when the tokens do
not form at most one document. -/
def ofTokens? (tokens : List Token) : Option (Option Node) :=
  match root? tokens with
  | some (node, rest) => if rest.all (· == .documentEnd) then some node else none
  | none => none

end Node

end LinkedApi.Yaml
