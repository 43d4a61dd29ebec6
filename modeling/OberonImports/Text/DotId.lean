/-!
# Quoted identifiers of the DOT language

An identifier is written between double quotes; a double quote or a backslash inside it is preceded
by a backslash. The reader undoes this and stops at the closing quote, so it finds the end of an
identifier whatever text follows.
-/

namespace OberonImports.Text.DotId

/-- The characters of an identifier with quotes and backslashes escaped. -/
def escape : List Char → List Char
  | [] => []
  | c :: id => if c = '"' ∨ c = '\\' then '\\' :: c :: escape id else c :: escape id

def quote (id : String) : String := String.ofList ('"' :: (escape id.toList ++ ['"']))

/-- The identifier up to the first quote that is not escaped, and the text behind that quote. -/
def unescape? : List Char → Option (List Char × List Char)
  | [] => none
  | '"' :: rest => some ([], rest)
  | '\\' :: c :: rest => (unescape? rest).map fun (id, rest) => (c :: id, rest)
  | c :: rest => (unescape? rest).map fun (id, rest) => (c :: id, rest)

/-- Read a quoted identifier from the front of a text. -/
def read? : List Char → Option (List Char × List Char)
  | '"' :: text => unescape? text
  | _ => none

end OberonImports.Text.DotId
