import OberonImports.Yaml.Cursor

/-!
# Folding

Blanks and line breaks inside a flow scalar are folded: blanks within a line stay, a single line
break becomes a space, and of several line breaks all but the first stay. Blanks next to a line
break are dropped.
-/

namespace OberonImports.Yaml

/-- Blanks and line breaks that have been read but not yet written. A stretch with line breaks has a
first break, which is empty if it was escaped, and further ones. Blanks and further breaks are kept
with the last one first. -/
inductive Stretch where
  | none
  | blanks (text : List Char)
  | breaks (first more : List Char)
  deriving Repr, DecidableEq

namespace Stretch

def addBlank : Stretch → Char → Stretch
  | none, c => blanks [c]
  | blanks text, c => blanks (c :: text)
  | breaks first more, _ => breaks first more

def addBreak : Stretch → Char → Stretch
  | breaks first more, c => breaks first (c :: more)
  | _, c => breaks [c] []

def hasBreak : Stretch → Bool
  | breaks .. => true
  | _ => false

/-- What a stretch becomes. -/
def folded : Stretch → List Char
  | none => []
  | blanks text => text.reverse
  | breaks ['\n'] [] => [' ']
  | breaks ['\n'] more => more.reverse
  | breaks first more => first ++ more.reverse

end Stretch

end OberonImports.Yaml
