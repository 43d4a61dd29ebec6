import OberonImports.Yaml.Scalar.Folding

/-!
# Quoted scalars

Between single quotes all characters stand for themselves, but a quote is written twice. Between
double quotes a backslash starts an escape. Line breaks are folded in both.
-/

namespace OberonImports.Yaml

/-- Read on between single quotes. What has been read is in `read`, last character first. -/
def singleQuoted? (mark : Mark) (stretch : Stretch) (read : List Char) :
    List Char → Option (List Char × Cursor)
  | [] => none
  | '\'' :: '\'' :: text =>
      singleQuoted? ((mark.next '\'').next '\'') .none
        ('\'' :: (stretch.folded.reverse ++ read)) text
  | c :: text =>
      if isBreak c then singleQuoted? (mark.next c) (stretch.addBreak c) read text
      else if isGap c then singleQuoted? (mark.next c) (stretch.addBlank c) read text
      else if c = '\'' then
        some ((stretch.folded.reverse ++ read).reverse, ⟨text, mark.next c⟩)
      else if mark.atDocumentSign (c :: text) then none
      else singleQuoted? (mark.next c) .none (c :: (stretch.folded.reverse ++ read)) text

/-- What a character behind a backslash stands for, if it stands for one character. -/
def escaped? : Char → Option Char
  | '0' => some '\x00'
  | 'a' => some '\x07'
  | 'b' => some '\x08'
  | 't' | '\t' => some '\t'
  | 'n' => some '\n'
  | 'v' => some '\x0b'
  | 'f' => some '\x0c'
  | 'r' => some '\r'
  | 'e' => some '\x1b'
  | ' ' => some ' '
  | '"' => some '"'
  | '/' => some '/'
  | '\\' => some '\\'
  | 'N' => some '\x85'
  | '_' => some '\xa0'
  | 'L' => some '\u2028'
  | 'P' => some '\u2029'
  | _ => none

/-- How many digits of a code follow a character behind a backslash. -/
def codeLength? : Char → Option Nat
  | 'x' => some 2
  | 'u' => some 4
  | 'U' => some 8
  | _ => none

def hexValue? (c : Char) : Option Nat :=
  if c.isDigit then some (c.toNat - '0'.toNat)
  else if 'a' ≤ c ∧ c ≤ 'f' then some (c.toNat - 'a'.toNat + 10)
  else if 'A' ≤ c ∧ c ≤ 'F' then some (c.toNat - 'A'.toNat + 10)
  else none

def charOfCode? (code : Nat) : Option Char :=
  if h : code.isValidChar then some (Char.ofNatAux code h) else none

/-- Where reading stands between double quotes: outside of escapes, behind a backslash, or before
the last digits of a code. -/
inductive EscapeState where
  | outside
  | backslash
  | code (left value : Nat)
  deriving Repr, DecidableEq

/-- Read on between double quotes. What has been read is in `read`, last character first. -/
def doubleQuoted? (mark : Mark) (stretch : Stretch) (read : List Char) (state : EscapeState) :
    List Char → Option (List Char × Cursor)
  | [] => none
  | c :: text =>
      match state with
      | .outside =>
          if isBreak c then doubleQuoted? (mark.next c) (stretch.addBreak c) read .outside text
          else if isGap c then
            doubleQuoted? (mark.next c) (stretch.addBlank c) read .outside text
          else
            let read := stretch.folded.reverse ++ read
            if c = '"' then some (read.reverse, ⟨text, mark.next c⟩)
            else if c = '\\' then doubleQuoted? (mark.next c) .none read .backslash text
            else if mark.atDocumentSign (c :: text) then none
            else doubleQuoted? (mark.next c) .none (c :: read) .outside text
      | .backslash =>
          if isBreak c then doubleQuoted? (mark.next c) (.breaks [] []) read .outside text
          else
            match escaped? c, codeLength? c with
            | some value, _ => doubleQuoted? (mark.next c) .none (value :: read) .outside text
            | none, some length =>
                doubleQuoted? (mark.next c) .none read (.code length 0) text
            | none, none => none
      | .code left value =>
          match hexValue? c with
          | none => none
          | some digit =>
              let value := value * 16 + digit
              if left ≤ 1 then
                match charOfCode? value with
                | none => none
                | some char => doubleQuoted? (mark.next c) .none (char :: read) .outside text
              else doubleQuoted? (mark.next c) .none read (.code (left - 1) value) text

end OberonImports.Yaml
