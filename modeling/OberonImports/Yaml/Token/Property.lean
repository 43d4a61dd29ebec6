import OberonImports.Text.Utf8
import OberonImports.Yaml.Scalar.Quoted
import OberonImports.Yaml.Token.Basic

/-!
# Anchors, tags and directives

The tokens that say something about a node or about a document. A tag is a handle, which a directive
may explain, and a suffix. What a handle stands for and the suffix are URI characters, and escapes
for other octets.
-/

namespace OberonImports.Yaml

/-- A piece of text that was read, and the cursor behind it. -/
abbrev Piece := List Char × Cursor

def anchorName? (cursor : Cursor) : Option Piece :=
  let (name, cursor) := cursor.span isNameChar
  let ends : Bool := atGap cursor.text ||
    cursor.text.head?.any fun c => ['?', ':', ',', ']', '\x7d', '%', '@', '`'].contains c
  if name ≠ [] ∧ ends then some (name, cursor) else none

/-- The handle of a tag: an exclamation mark, or a name between two of them. -/
def tagHandle? (cursor : Cursor) : Option Piece :=
  if cursor.text.head? = some '!' then
    let (name, cursor) := cursor.next.span isNameChar
    if cursor.text.head? = some '!' then some ('!' :: name ++ ['!'], cursor.next)
    else some ('!' :: name, cursor)
  else none

/-- Whether a handle is a name, possibly an empty one, between two exclamation marks. -/
def isNamedHandle (handle : List Char) : Bool :=
  2 ≤ handle.length && handle.getLast? = some '!'

/-- Whether a character may stand in the URI of a tag. Between angle brackets it may also be a comma
or a bracket. -/
def isUriChar (verbatim : Bool) (c : Char) : Bool :=
  isNameChar c || ";/?:@&=+$.!~*'()".toList.contains c || (verbatim && [',', '[', ']'].contains c)

/-- How many octets follow the first octet of a character. -/
def trailingOctets? (octet : Nat) : Option Nat :=
  if octet < 0x80 then some 0
  else if 0xC0 ≤ octet ∧ octet < 0xE0 then some 1
  else if 0xE0 ≤ octet ∧ octet < 0xF0 then some 2
  else if 0xF0 ≤ octet ∧ octet < 0xF8 then some 3
  else none

/-- Read on in a URI. The number of octets that are still to come of a character is `left`, and what
has been read is in `read`, last octet first. -/
def uriOctets? (verbatim : Bool) (mark : Mark) (left : Nat) (read : List UInt8) :
    List Char → Option (List UInt8 × Cursor)
  | '%' :: high :: low :: text =>
      match hexValue? high, hexValue? low with
      | some high', some low' =>
          let octet := high' * 16 + low'
          let left? := match left with
            | 0 => trailingOctets? octet
            | left + 1 => if 0x80 ≤ octet ∧ octet < 0xC0 then some left else none
          match left? with
          | none => none
          | some left =>
              uriOctets? verbatim (((mark.next '%').next high).next low) left
                (UInt8.ofNat octet :: read) text
      | _, _ => none
  | '%' :: _ => none
  | [] => if left = 0 then some (read.reverse, ⟨[], mark⟩) else none
  | c :: text =>
      if left ≠ 0 then none
      else if isUriChar verbatim c then
        uriOctets? verbatim (mark.next c) 0 (UInt8.ofNat c.toNat :: read) text
      else some (read.reverse, ⟨c :: text, mark⟩)

/-- The octets of a URI behind a head, whose first character does not count. Head and URI together
must not be empty. An octet 0 ends what the URI stands for. -/
def tagUri? (verbatim : Bool) (head : List Char) (cursor : Cursor) :
    Option (TagOctets × Cursor) := do
  let (octets, rest) ← uriOctets? verbatim cursor.mark 0 [] cursor.text
  if head = [] ∧ octets = [] then none
  else some (Text.Utf8.encode (String.ofList (head.drop 1)) ++ octets.takeWhile (· ≠ 0), rest)

/-- A suffix without a handle, written in full between angle brackets. -/
def verbatimTag? (cursor : Cursor) : Option (List Char × TagOctets × Cursor) := do
  let (suffix, cursor) ← tagUri? true [] (cursor.skip 2)
  if cursor.text.head? = some '>' then some ([], suffix, cursor.next) else none

/-- A handle and a suffix. What looks like a handle but is not closed is the front of the suffix. -/
def shorthandTag? (cursor : Cursor) : Option (List Char × TagOctets × Cursor) := do
  let (handle, cursor) ← tagHandle? cursor
  if isNamedHandle handle then
    let (suffix, cursor) ← tagUri? false [] cursor
    some (handle, suffix, cursor)
  else
    let (suffix, cursor) ← tagUri? false handle cursor
    if suffix = [] then some ([], Text.Utf8.encode "!", cursor) else some (['!'], suffix, cursor)

/-- The tag whose sign is the next character. -/
def tagAt? (inFlow : Bool) (cursor : Cursor) : Option (TokenKind × Cursor) := do
  let (handle, suffix, rest) ←
    if cursor.text.tail.head? = some '<' then verbatimTag? cursor else shorthandTag? cursor
  if atGap rest.text ∨ (inFlow ∧ rest.text.head? = some ',') then
    some (.tag (String.ofList handle) suffix, rest)
  else none

/-- A number of at most nine digits. -/
def versionNumber? (cursor : Cursor) : Option (Nat × Cursor) :=
  let (digits, rest) := cursor.span Char.isDigit
  if digits = [] ∨ 9 < digits.length then none
  else some (digits.foldl (fun n c => n * 10 + (c.toNat - '0'.toNat)) 0, rest)

def version? (cursor : Cursor) : Option (TokenKind × Cursor) := do
  let (major, cursor) ← versionNumber? cursor.skipGap
  if cursor.text.head? = some '.' then
    let (minor, cursor) ← versionNumber? cursor.next
    some (.versionDirective major minor, cursor)
  else none

/-- A handle and what it stands for. -/
def tagMeaning? (cursor : Cursor) : Option (TokenKind × Cursor) := do
  let (handle, cursor) ← tagHandle? cursor.skipGap
  if handle ≠ ['!'] ∧ !isNamedHandle handle then none
  else if cursor.text.head?.any isGap then
    let (stem, cursor) ← tagUri? true [] cursor.skipGap
    if atGap cursor.text then some (.tagDirective (String.ofList handle) stem, cursor) else none
  else none

/-- The directive whose sign is the next character. The cursor is the one behind its line, the mark
the one at its end. -/
def directiveAt? (cursor : Cursor) : Option (TokenKind × Mark × Cursor) := do
  let (name, cursor) := cursor.next.span isNameChar
  let (kind, cursor) ←
    if !atGap cursor.text then none
    else if name = "YAML".toList then version? cursor
    else if name = "TAG".toList then tagMeaning? cursor
    else none
  let rest ← cursor.skipRestOfLine?
  some (kind, cursor.mark, rest)

end OberonImports.Yaml
