import OberonImports.Text.Split

/-!
# Styled text

On a terminal with colours a styled text stands between a sequence that turns its style on and one
that turns all styles off. Without colours it is the text alone.
-/

namespace OberonImports.Terminal

/-- A colour of text. -/
inductive Colour where
  | red
  | green
  | yellow
  | blue
  | cyan
  deriving Repr, DecidableEq

def Colour.code : Colour → Nat
  | red => 31
  | green => 32
  | yellow => 33
  | blue => 34
  | cyan => 36

/-- How a text stands out. -/
structure Style where
  bold : Bool
  dimmed : Bool
  colour : Option Colour
  deriving Repr, DecidableEq

namespace Style

def ofColour (colour : Colour) : Style := ⟨false, false, some colour⟩

def boldColour (colour : Colour) : Style := ⟨true, false, some colour⟩

def strong : Style := ⟨true, false, none⟩

def faint : Style := ⟨false, true, none⟩

/-- The codes that turn a style on. -/
def codes (style : Style) : List Nat :=
  (if style.bold then [1] else []) ++ (if style.dimmed then [2] else [])
    ++ style.colour.toList.map Colour.code

/-- The sequence that turns a style on. -/
def opening (style : Style) : List Char :=
  ['\x1b', '['] ++ (";".intercalate (style.codes.map toString)).toList ++ ['m']

end Style

def closing : List Char := ['\x1b', '[', '0', 'm']

/-- A text in which the opening sequence follows every closing sequence. The number of characters of
a closing sequence that are still to be passed is `pending`, behind the last of them the opening
sequence stands. -/
def reopen (opening : List Char) : Nat → List Char → List Char
  | _, [] => []
  | 0, c :: text =>
      if closing.isPrefixOf (c :: text) then c :: reopen opening 3 text
      else c :: reopen opening 0 text
  | 1, c :: text => c :: opening ++ reopen opening 0 text
  | pending + 2, c :: text => c :: reopen opening (pending + 1) text

/-- A text in a style, for a terminal with or without colours. -/
def paint (colours : Bool) (style : Style) (text : String) : String :=
  if colours then
    String.ofList (style.opening ++ reopen style.opening 0 text.toList ++ closing)
  else text

end OberonImports.Terminal
