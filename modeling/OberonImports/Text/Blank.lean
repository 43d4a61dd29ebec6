import OberonImports.Text.CodeRange

/-!
# White space

A character is blank if it has the Unicode property `White_Space`. Trimming removes blanks from
both ends of a text and from nowhere else.
-/

namespace OberonImports.Text

/-- The characters with the property `White_Space`. -/
def blankRanges : List CodeRange :=
  rangesOf [(0x9, 0xD), (0x20, 0x20), (0x85, 0x85), (0xA0, 0xA0), (0x1680, 0x1680),
    (0x2000, 0x200A), (0x2028, 0x2029), (0x202F, 0x202F), (0x205F, 0x205F), (0x3000, 0x3000)]

def isBlank (c : Char) : Bool := inRanges blankRanges c.toNat

def trimFront (text : List Char) : List Char := text.dropWhile isBlank

def trimBack (text : List Char) : List Char := (text.reverse.dropWhile isBlank).reverse

def trim (text : List Char) : List Char := trimBack (trimFront text)

end OberonImports.Text
