import OberonImports.Text.Blank
import OberonImports.Text.WordChar

/-!
# Clauses

A clause is a keyword in any letter case, a body and a semicolon. The keyword does not continue a
word; the body begins with a blank, has at least two characters and reaches to the first semicolon.
A module is named by its first declaration and imports what its first import clause lists.
-/

namespace OberonImports.Source

open Text

/-- The rest of a text behind a keyword given in capitals, in whatever case the text has it. -/
def dropKeyword? : List Char → List Char → Option (List Char)
  | [], text => some text
  | _ :: _, [] => none
  | k :: keyword, c :: text => if c.toUpper = k then dropKeyword? keyword text else none

/-- Whether a body is long enough, begins with a blank and has only admitted characters. -/
def isBody (admits : Char → Bool) : List Char → Bool
  | first :: second :: rest => isBlank first && (first :: second :: rest).all admits
  | _ => false

/-- The body of the clause that begins where the text begins. -/
def clauseAt? (keyword : List Char) (admits : Char → Bool) (text : List Char) :
    Option (List Char) :=
  match dropKeyword? keyword text with
  | none => none
  | some rest =>
      let body := rest.takeWhile (· ≠ ';')
      if body.length < rest.length ∧ isBody admits body then some body else none

/-- The body of the leftmost clause; `inWord` says that a word character stands before the text. -/
def findClause? (keyword : List Char) (admits : Char → Bool) :
    (inWord : Bool) → List Char → Option (List Char)
  | _, [] => none
  | inWord, c :: text =>
      match if inWord then none else clauseAt? keyword admits (c :: text) with
      | some body => some body
      | none => findClause? keyword admits (isWordChar c) text

/-- The characters of a module name and of the blanks around it. A name may be qualified, as in
`Dir/Sub.Name` or `Base(Derived)`. -/
def isNameChar (c : Char) : Bool :=
  isWordChar c || isBlank c || c ∈ ['/', '.', '(', ')', '*']

def declaration? (text : List Char) : Option (List Char) :=
  findClause? ['M', 'O', 'D', 'U', 'L', 'E'] isNameChar false text

def importClause? (text : List Char) : Option (List Char) :=
  findClause? ['I', 'M', 'P', 'O', 'R', 'T'] (fun _ => true) false text

end OberonImports.Source
