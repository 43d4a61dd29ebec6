/-!
# Decimal numbers

Numbers in decimal digits, as texts write them: with a point, with an exponent, and written out in
full.
-/

namespace OberonImports.Number

/-- The number whose magnitude is `digits * 10 ^ exponent`. -/
structure Decimal where
  negative : Bool
  digits : Nat
  exponent : Int
  deriving Repr, DecidableEq

def twoTo (n : Nat) : Nat := Nat.pow 2 n

def tenTo (n : Nat) : Nat := Nat.pow 10 n

/-- The value of decimal digits, most significant first. -/
def ofDigits (digits : List Char) : Nat :=
  digits.foldl (fun n c => n * 10 + (c.toNat - '0'.toNat)) 0

def toDigits (n : Nat) : List Char := Nat.toDigits 10 n

/-- A sign and the text behind it. -/
def signAndRest : List Char → Bool × List Char
  | '-' :: text => (true, text)
  | '+' :: text => (false, text)
  | text => (false, text)

/-- The exponent that a text consists of, which is 0 for the empty text. -/
def exponentOf? : List Char → Option Int
  | [] => some 0
  | c :: text =>
      let (negative, digits) := signAndRest text
      if (c = 'e' ∨ c = 'E') ∧ digits ≠ [] ∧ digits.all Char.isDigit then
        some (if negative then - (ofDigits digits : Int) else ofDigits digits)
      else none

/-- The number that a text consists of. There has to be a digit before or behind the point. -/
def Decimal.ofText? (text : List Char) : Option Decimal := do
  let (negative, text) := signAndRest text
  let whole := text.takeWhile Char.isDigit
  let text := text.dropWhile Char.isDigit
  let (fraction, text) := match text with
    | '.' :: text => (text.takeWhile Char.isDigit, text.dropWhile Char.isDigit)
    | _ => ([], text)
  if whole = [] ∧ fraction = [] then none
  else
    let exponent ← exponentOf? text
    some ⟨negative, ofDigits (whole ++ fraction), exponent - fraction.length⟩

/-- The text of `digits * 10 ^ exponent` with a point and at least one digit on either side of
it. -/
def positional (digits : Nat) (exponent : Int) : List Char :=
  match exponent with
  | .ofNat zeros => toDigits digits ++ List.replicate zeros '0' ++ ['.', '0']
  | .negSucc n =>
      let places := n + 1
      let text := toDigits digits
      let text := List.replicate (places + 1 - text.length) '0' ++ text
      let whole := text.length - places
      text.take whole ++ '.' :: text.drop whole

end OberonImports.Number
