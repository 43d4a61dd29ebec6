import OberonImports.Yaml.Cursor

/-!
# YAML tokens

A token is a sign of the text, a scalar, or a property of a node. Indentation is told by tokens too:
a block collection has one at its start and one at its end, and a key one in front of it.
-/

namespace OberonImports.Yaml

/-- How a scalar is written. -/
inductive ScalarStyle where
  | plain
  | singleQuoted
  | doubleQuoted
  | literal
  | folded
  deriving Repr, DecidableEq

/-- The octets of a tag, or of a part of one. They need not be UTF-8. -/
abbrev TagOctets := List UInt8

/-- What a token is. -/
inductive TokenKind where
  | streamStart
  | streamEnd
  | versionDirective (major minor : Nat)
  | tagDirective (handle : String) (stem : TagOctets)
  | documentStart
  | documentEnd
  | blockSequenceStart
  | blockMappingStart
  | blockEnd
  | flowSequenceStart
  | flowSequenceEnd
  | flowMappingStart
  | flowMappingEnd
  | blockEntry
  | flowEntry
  | key
  | value
  | alias (name : String)
  | anchor (name : String)
  | tag (handle : String) (suffix : TagOctets)
  | scalar (text : String) (style : ScalarStyle)
  deriving Repr, DecidableEq

/-- A token with the places where it starts and ends. -/
structure Token where
  kind : TokenKind
  start : Mark
  stop : Mark
  deriving Repr, DecidableEq

end OberonImports.Yaml
