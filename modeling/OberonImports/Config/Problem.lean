import OberonImports.Yaml.Meaning

/-!
# What can be wrong with a configuration text

A problem has a cause and, if the cause lies in a node of the text, the place of the node: the keys
that lead to it, and where it starts. The message names the keys before the cause and the line
behind it.
-/

namespace OberonImports

/-- What is wrong. -/
inductive Cause where
  | notYaml
  | missingField (name : String)
  | duplicateField (name : String)
  | unknownField (name : String) (expected : List String)
  | unknownVariant (name : String) (expected : List String)
  | invalidType (found : Yaml.Found) (expected : String)
  | invalidValue (text : String) (expected : String)
  deriving Repr, DecidableEq

namespace Cause

/-- A name between marks. -/
def marked (name : String) : String := "`" ++ name ++ "`"

/-- The names that were expected, as a choice. -/
def choice : List String → String
  | [name] => marked name
  | [first, second] => marked first ++ " or " ++ marked second
  | names => "one of " ++ ", ".intercalate (names.map marked)

def message : Cause → String
  | notYaml => "the text is not a single YAML document"
  | missingField name => "missing field " ++ marked name
  | duplicateField name => "duplicate field " ++ marked name
  | unknownField name expected =>
      "unknown field " ++ marked name ++ ", expected " ++ choice expected
  | unknownVariant name expected =>
      "unknown variant " ++ marked name ++ ", expected " ++ choice expected
  | invalidType found expected =>
      "invalid type: " ++ found.description ++ ", expected " ++ expected
  | invalidValue text expected =>
      "invalid value: " ++ (Yaml.Found.text text).description ++ ", expected " ++ expected

end Cause

/-- The keys that lead to a node, outermost first. A key that is not written out has no name. -/
abbrev KeyPath := List (Option String)

def KeyPath.text (path : KeyPath) : String := ".".intercalate (path.map (·.getD "?"))

/-- The place of a node. -/
structure Place where
  path : KeyPath
  mark : Yaml.Mark
  deriving Repr, DecidableEq

/-- A cause with its place. -/
structure Problem where
  cause : Cause
  place : Option Place
  deriving Repr, DecidableEq

namespace Problem

/-- A problem whose place is that of the node around it. -/
def unplaced (cause : Cause) : Problem := ⟨cause, none⟩

/-- A problem of a node. -/
def placed (path : KeyPath) (mark : Yaml.Mark) (cause : Cause) : Problem :=
  ⟨cause, some ⟨path, mark⟩⟩

/-- The problem with a place, if it has none yet. That the text is not YAML is no matter of a
node. -/
def within (path : KeyPath) (mark : Yaml.Mark) (problem : Problem) : Problem :=
  if problem.cause = .notYaml then problem
  else { problem with place := problem.place.or (some ⟨path, mark⟩) }

/-- How a message names a line and a column, which count from 1. The very front of the text is not
mentioned. -/
def lineText (mark : Yaml.Mark) : String :=
  if mark.line = 0 ∧ mark.column = 0 then ""
  else " at line " ++ toString (mark.line + 1) ++ " column " ++ toString (mark.column + 1)

def message (problem : Problem) : String :=
  match problem.place with
  | none => problem.cause.message
  | some place =>
      (if place.path = [] then "" else place.path.text ++ ": ")
        ++ problem.cause.message ++ lineText place.mark

end Problem

end OberonImports
