import OberonImports.Yaml.Cursor

/-!
# Block scalars

A block scalar is introduced by a header and goes on for as long as lines are indented. A literal
block scalar keeps its line breaks, a folded one joins lines that do not start with a blank. The
header says what becomes of the line breaks at the end, and may say how far the lines are indented;
else the first line that is not empty says it.
-/

namespace OberonImports.Yaml

/-- What becomes of the line breaks at the end of a block scalar: none stays, one stays, all
stay. -/
inductive Chomping where
  | strip
  | clip
  | keep
  deriving Repr, DecidableEq

/-- The header of a block scalar: the chomping, and how much further its lines are indented. -/
structure BlockHeader where
  chomping : Chomping
  increment : Option Nat
  deriving Repr, DecidableEq

def Chomping.ofChar? : Char → Option Chomping
  | '+' => some keep
  | '-' => some strip
  | _ => none

def digitValue? (c : Char) : Option Nat := if c.isDigit then some (c.toNat - '0'.toNat) else none

/-- The signs of a header, in either order, and how many characters they take. An increment must not
be 0. -/
def blockHeader? : List Char → Option (BlockHeader × Nat)
  | [] => some (⟨.clip, none⟩, 0)
  | c :: text =>
      match Chomping.ofChar? c, digitValue? c with
      | some chomping, _ =>
          match text.head?.bind digitValue? with
          | none => some (⟨chomping, none⟩, 1)
          | some 0 => none
          | some increment => some (⟨chomping, some increment⟩, 2)
      | none, some 0 => none
      | none, some increment =>
          match text.head?.bind Chomping.ofChar? with
          | none => some (⟨.clip, some increment⟩, 1)
          | some chomping => some (⟨chomping, some increment⟩, 2)
      | none, none => some (⟨.clip, none⟩, 0)

/-- What has been read of a block scalar. The text has its last character first. The indentation is
0 until it is known, and `widest` is the largest column seen since the last line. -/
structure BlockReading where
  text : List Char
  lastBreak : List Char
  emptyLines : List Char
  blankStart : Bool
  indentation : Nat
  widest : Nat
  deriving Repr, DecidableEq

namespace BlockReading

def start (indentation : Nat) : BlockReading := ⟨[], [], [], false, indentation, 0⟩

/-- Whether a column belongs to the margin. -/
def inMargin (reading : BlockReading) (column : Nat) : Bool :=
  reading.indentation = 0 || column < reading.indentation

/-- Settle the indentation at the end of a margin, if it is not known. It is at least `least`. -/
def settle (reading : BlockReading) (least column : Nat) : BlockReading :=
  if reading.indentation = 0 then
    { reading with indentation := max (max (max reading.widest column) least) 1 }
  else reading

/-- Start a line: write the line breaks before it. -/
def startLine (reading : BlockReading) (folds : Bool) (c : Char) : BlockReading :=
  let joins := folds && reading.lastBreak = ['\n'] && !reading.blankStart && !isGap c
  let between :=
    if joins then (if reading.emptyLines = [] then [' '] else reading.emptyLines)
    else reading.lastBreak ++ reading.emptyLines
  { reading with
    text := c :: (between.reverse ++ reading.text)
    lastBreak := []
    emptyLines := []
    blankStart := isGap c }

/-- The text of the scalar at its end. -/
def finish (reading : BlockReading) (chomping : Chomping) : List Char :=
  reading.text.reverse ++
    match chomping with
    | .strip => []
    | .clip => reading.lastBreak
    | .keep => reading.lastBreak ++ reading.emptyLines

end BlockReading

/-- What is the same for all lines of a block scalar. -/
structure BlockStyle where
  folds : Bool
  chomping : Chomping
  least : Nat

/-- Read on in a block scalar, in the margin of a line or behind it. -/
def blockScalar? (style : BlockStyle) (mark : Mark) (inLine : Bool) (reading : BlockReading) :
    List Char → Option (List Char × Cursor)
  | [] => some (reading.finish style.chomping, ⟨[], mark⟩)
  | c :: text =>
      if inLine then
        if isBreak c then
          blockScalar? style (mark.next c) false { reading with lastBreak := [c], widest := 0 } text
        else
          blockScalar? style (mark.next c) true { reading with text := c :: reading.text } text
      else if reading.inMargin mark.column ∧ c = ' ' then
        blockScalar? style (mark.next c) false reading text
      else if reading.inMargin mark.column ∧ c = '\t' then none
      else if isBreak c then
        blockScalar? style (mark.next c) false
          { reading with
            emptyLines := reading.emptyLines ++ [c]
            widest := max reading.widest mark.column } text
      else
        let reading := reading.settle style.least mark.column
        if mark.column = reading.indentation then
          blockScalar? style (mark.next c) true (reading.startLine style.folds c) text
        else some (reading.finish style.chomping, ⟨c :: text, mark⟩)

/-- The block scalar whose sign is the next character. The lines of its surroundings are indented by
`level` columns less one. -/
def blockScalarAt? (folds : Bool) (level : Nat) (cursor : Cursor) :
    Option (List Char × Cursor) := do
  let (header, length) ← blockHeader? cursor.next.text
  let cursor ← (cursor.next.skip length).skipRestOfLine?
  let indentation := match header.increment with
    | none => 0
    | some increment => level - 1 + increment
  blockScalar? ⟨folds, header.chomping, level⟩ cursor.mark false (.start indentation) cursor.text

end OberonImports.Yaml
