import OberonImports.Path
import OberonImports.Source.Comment
import OberonImports.Source.Clause
import OberonImports.Source.ImportList

/-!
# Modules

A module is known by its name, the names that it imports in the order of its import clause, and the
file that declares it. `Module.ofText?` reads name and imports from a source text.
-/

namespace OberonImports

/-- A declared module. -/
structure Module where
  name : String
  imports : List String
  source : Option Path
  deriving Repr, DecidableEq

namespace Module

def bare (name : String) : Module := ⟨name, [], none⟩

def isBare (module : Module) : Bool := module.imports.isEmpty

/-- The module with one more import, behind the others. -/
def addImport (module : Module) (name : String) : Module :=
  { module with imports := module.imports ++ [name] }

/-- The imports of the leftmost import clause of a text without comments. -/
def importsOf (text : List Char) : List String :=
  match Source.importClause? text with
  | none => []
  | some list => (Source.importedNames list).map String.ofList

/-- The module that a source text declares. Only the leftmost declaration counts: if it names
nothing but blanks, the text declares no module. -/
def ofText? (text : String) : Option Module :=
  let text := Source.stripComments text.toList
  match (Source.declaration? text).map Text.trim with
  | none | some [] => none
  | some name => some ⟨String.ofList name, importsOf text, none⟩

end Module

end OberonImports
