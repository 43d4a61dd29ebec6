import OberonImports.Yaml.Token.Basic

/-!
# YAML events

The events of a text tell its documents and their nodes in the order of the text: a collection has
an event at its start and one at its end, with the events of its nodes between them. A mapping holds
keys and values in turn.
-/

namespace OberonImports.Yaml

/-- A scalar: its text, its tag unless it has none, and how it is written. -/
structure Scalar where
  text : String
  tag : Option TagOctets
  style : ScalarStyle
  deriving Repr, DecidableEq

/-- What an event is. -/
inductive EventKind where
  | streamStart
  | streamEnd
  | documentStart
  | documentEnd
  | alias (name : String)
  | scalar (anchor : Option String) (scalar : Scalar)
  | sequenceStart (anchor : Option String) (tag : Option TagOctets)
  | sequenceEnd
  | mappingStart (anchor : Option String) (tag : Option TagOctets)
  | mappingEnd
  deriving Repr, DecidableEq

/-- An event with the place where it starts. -/
structure Event where
  kind : EventKind
  mark : Mark
  deriving Repr, DecidableEq

end OberonImports.Yaml
