import OberonImports.Text.Split

/-!
# Comments

A comment begins with the characters `(*` and ends with the next `*)`. Comments do not nest. An
opening mark that nothing closes is ordinary text, and so is all that follows it.
-/

namespace OberonImports.Source

open Text

def openMark : List Char := ['(', '*']

def closeMark : List Char := ['*', ')']

/-- The text without its comments. The marks are found from left to right, so a mark inside a
comment opens nothing, and what stands around a comment is not read again as a mark. -/
def stripComments (text : List Char) : List Char :=
  match _hopen : cut? openMark text with
  | none => text
  | some (before, body) =>
      match _hclose : cut? closeMark body with
      | none => text
      | some (_, after) => before ++ stripComments after
termination_by text.length
decreasing_by
  have := length_after_lt_of_cut? (by simp [openMark]) _hopen
  have := length_after_lt_of_cut? (by simp [closeMark]) _hclose
  omega

end OberonImports.Source
