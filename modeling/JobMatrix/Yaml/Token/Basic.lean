/-!
# Tokens of YAML

The vocabulary between the characters of a stream and its nodes.  Tags are kept as octets, because
their percent escapes write octets; names and texts are strings.
-/

set_option autoImplicit false

namespace JobMatrix.Yaml

/-- How a scalar is written. -/
inductive ScalarStyle
  | plain
  | singleQuoted
  | doubleQuoted
  | literal
  | folded
deriving DecidableEq, Repr

inductive Token
  | streamEnd
  | versionDirective (major minor : Nat)
  | tagDirective (handle : String) (stem : List UInt8)
  | documentStart
  | documentEnd
  | blockSequenceStart
  | blockMappingStart
  | blockEnd
  | flowSequenceStart
  | flowSequenceEnd
  | flowMappingStart
  | flowMappingEnd
  | blockEntry
  | flowEntry
  | key
  | value
  | alias (name : String)
  | anchor (name : String)
  | tag (handle : String) (suffix : List UInt8)
  | scalar (style : ScalarStyle) (text : String)
deriving DecidableEq, Repr

/-- A token and the position it starts at. -/
structure Lexeme where
  token : Token
  line : Nat
  column : Nat
deriving DecidableEq, Repr

end JobMatrix.Yaml
