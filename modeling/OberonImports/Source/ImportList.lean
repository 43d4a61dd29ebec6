import OberonImports.Text.Blank
import OberonImports.Text.Split

/-!
# Import lists

An import list holds entries between commas. An entry names a module, or gives it an alias with
`:=`, in which case the module is named behind the sign. Entries that name nothing are dropped;
order and repeats are kept.
-/

namespace OberonImports.Source

open Text

/-- The sign between an alias and the module it stands for. -/
def aliasSign : List Char := [':', '=']

/-- The module that an entry names, without the blanks around it. -/
def importedName (entry : List Char) : List Char :=
  match cut? aliasSign (trim entry) with
  | some (_, target) => trim target
  | none => trim entry

def importedNames (list : List Char) : List (List Char) :=
  ((fields ',' list).map importedName).filter (· ≠ [])

end OberonImports.Source
