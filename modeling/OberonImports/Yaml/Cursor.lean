/-!
# Reading positions in a YAML text

A YAML text is read from left to right. Before reading, all line breaks of one or two control
characters become line feeds. A text is taken block by block, and what is behind the last block
before a character that may not stand in a text cannot be read. A cursor is the text that is still to
be read together with the place where it starts.
-/

namespace OberonImports.Yaml

/-- A place in a text, counted from 0: octets, lines, and characters in the line. -/
structure Mark where
  index : Nat
  line : Nat
  column : Nat
  deriving Repr, DecidableEq, Inhabited

/-- Whether a character may stand in a YAML text. -/
def isPrintable (c : Char) : Bool :=
  let n := c.toNat
  c = '\t' || c = '\n' || c = '\r' || (0x20 ≤ n && n ≤ 0x7E) || n = 0x85
    || (0xA0 ≤ n && n ≤ 0xD7FF) || (0xE000 ≤ n && n ≤ 0xFFFD) || 0x10000 ≤ n

/-- How many octets of a text are taken at a time. -/
def blockSize : Nat := 16384

/-- The characters of a text that can be read, and whether they are all. What has been seen of the
block at hand is in `block`, what was before it in `taken`, each with its last character first, and
`size` is the number of octets of `block`. -/
def readable (taken block : List Char) (size : Nat) : List Char → List Char × Bool
  | [] => ((block ++ taken).reverse, true)
  | c :: text =>
      if blockSize < size + c.utf8Size then
        if isPrintable c then readable (block ++ taken) [c] c.utf8Size text
        else ((block ++ taken).reverse, false)
      else if isPrintable c then readable taken (c :: block) (size + c.utf8Size) text
      else (taken.reverse, false)

/-- The text with a line feed for each carriage return, with or without a line feed behind it, and
for each next-line character. -/
def unifyBreaks : List Char → List Char
  | [] => []
  | '\r' :: '\n' :: text => '\n' :: unifyBreaks text
  | '\r' :: text => '\n' :: unifyBreaks text
  | '\x85' :: text => '\n' :: unifyBreaks text
  | c :: text => c :: unifyBreaks text

/-- Whether a character ends a line. -/
def isBreak (c : Char) : Bool := c = '\n' || c = '\u2028' || c = '\u2029'

/-- Whether a character is a blank within a line. -/
def isGap (c : Char) : Bool := c = ' ' || c = '\t'

/-- Whether a character may stand in the name of an anchor or a directive. -/
def isNameChar (c : Char) : Bool := c.isAlphanum || c = '_' || c = '-'

/-- Whether a text is at its end or at the end of a line. -/
def atLineEnd : List Char → Bool
  | [] => true
  | c :: _ => isBreak c

/-- Whether a text is at its end, at the end of a line or at a blank. -/
def atGap : List Char → Bool
  | [] => true
  | c :: _ => isGap c || isBreak c

/-- Whether a text goes on with a sign that stands alone. -/
def startsSign (sign : List Char) (text : List Char) : Bool :=
  sign.isPrefixOf text && atGap (text.drop sign.length)

/-- Whether a text goes on with the sign that starts a document. -/
def startsDocument (text : List Char) : Bool := startsSign ['-', '-', '-'] text

/-- Whether a text goes on with the sign that ends a document. -/
def endsDocument (text : List Char) : Bool := startsSign ['.', '.', '.'] text

namespace Mark

def start : Mark := ⟨0, 0, 0⟩

/-- The place behind a character. -/
def next (mark : Mark) (c : Char) : Mark :=
  if isBreak c then ⟨mark.index + c.utf8Size, mark.line + 1, 0⟩
  else ⟨mark.index + c.utf8Size, mark.line, mark.column + 1⟩

/-- Whether a document starts or ends here: its sign stands at the front of a line. -/
def atDocumentSign (mark : Mark) (text : List Char) : Bool :=
  mark.column = 0 && (startsDocument text || endsDocument text)

end Mark

/-- The text that is still to be read, and the place where it starts. -/
structure Cursor where
  text : List Char
  mark : Mark
  deriving Repr, DecidableEq, Inhabited

namespace Cursor

def next (cursor : Cursor) : Cursor :=
  match cursor.text with
  | [] => cursor
  | c :: text => ⟨text, cursor.mark.next c⟩

def skip (cursor : Cursor) : Nat → Cursor
  | 0 => cursor
  | n + 1 => cursor.next.skip n

/-- The characters that satisfy a condition, up to the first that does not, and the cursor there. -/
def span (p : Char → Bool) (cursor : Cursor) : List Char × Cursor :=
  let taken := cursor.text.takeWhile p
  (taken, ⟨cursor.text.dropWhile p, taken.foldl Mark.next cursor.mark⟩)

/-- The cursor at the first character that does not satisfy a condition. -/
def skipWhile (p : Char → Bool) (cursor : Cursor) : Cursor := (cursor.span p).2

/-- The cursor behind blanks. -/
def skipGap (cursor : Cursor) : Cursor := cursor.skipWhile isGap

/-- The cursor behind a comment, if there is one. -/
def skipComment (cursor : Cursor) : Cursor :=
  if cursor.text.head? = some '#' then cursor.skipWhile (!isBreak ·) else cursor

/-- The cursor at the front of the next line, if nothing but blanks and a comment is before it. -/
def skipRestOfLine? (cursor : Cursor) : Option Cursor :=
  let cursor := cursor.skipGap.skipComment
  if atLineEnd cursor.text then some cursor.next else none

end Cursor

end OberonImports.Yaml
