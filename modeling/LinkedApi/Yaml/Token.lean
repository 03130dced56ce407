/-!
# Tokens of a YAML text

Collections in block style are bracketed by tokens that have no characters of their own: they
follow from the indentation.
-/

namespace LinkedApi.Yaml

/-- Whether a scalar stands without quotes, so that its form decides its type. -/
inductive ScalarStyle where
  | plain
  | verbatim
  deriving DecidableEq, Repr

/-- A tag as written: the handle is empty when the rest is the whole tag. -/
structure TagName where
  handle : String
  suffix : String
  deriving DecidableEq, Repr

inductive Token where
  | version (major minor : Nat)
  | tagShorthand (handle expansion : String)
  | documentStart
  | documentEnd
  | blockSequenceStart
  | blockMappingStart
  | blockEnd
  | flowSequenceStart
  | flowSequenceEnd
  | flowMappingStart
  | flowMappingEnd
  | blockEntry
  | flowEntry
  | key
  | value
  | alias (name : String)
  | anchor (name : String)
  | tag (name : TagName)
  | scalar (text : String) (style : ScalarStyle)
  deriving DecidableEq, Repr

end LinkedApi.Yaml
