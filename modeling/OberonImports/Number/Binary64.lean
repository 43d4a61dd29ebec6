import OberonImports.Number.Decimal

/-!
# Binary floating-point numbers

The finite numbers of the 64-bit binary format, without their sign: a significand of 53 bits times a
power of 2. A decimal number is rounded to the nearest of them, and a tie goes to the even
significand. Back again, a number is written with the fewest digits that are rounded to it.
-/

namespace OberonImports.Number

/-- The number `significand * 2 ^ exponent`. -/
structure Binary64 where
  significand : Nat
  exponent : Int
  deriving Repr, DecidableEq

namespace Binary64

def leastExponent : Int := -1074

def greatestExponent : Int := 971

/-- The quotient of two numbers rounded to the nearest integer, a tie to the even one. -/
def roundDiv (num den : Nat) : Nat :=
  let quotient := num / den
  let twice := 2 * (num % den)
  if twice < den then quotient
  else if den < twice then quotient + 1
  else quotient + quotient % 2

/-- A fraction divided by a power of 2, as numerator and denominator. -/
def divPow (num den : Nat) : Int → Nat × Nat
  | .ofNat n => (num, den * twoTo n)
  | .negSucc n => (num * twoTo (n + 1), den)

/-- The nearest number to a positive fraction, unless it is too large. -/
def nearest? (num den : Nat) : Option Binary64 :=
  let estimate : Int := (Nat.log2 num : Int) - Nat.log2 den - 52
  let (n, d) := divPow num den estimate
  let exponent := max leastExponent (if n / d < twoTo 52 then estimate - 1 else estimate)
  let (n, d) := divPow num den exponent
  let significand := roundDiv n d
  let number : Binary64 :=
    if significand = twoTo 53 then ⟨twoTo 52, exponent + 1⟩ else ⟨significand, exponent⟩
  if greatestExponent < number.exponent then none else some number

/-- The nearest number to a decimal one, unless it is too large. -/
def ofDecimal? (digits : Nat) (exponent : Int) : Option Binary64 :=
  let magnitude := exponent + (toDigits digits).length
  if digits = 0 ∨ magnitude < -330 then some ⟨0, 0⟩
  else if 310 < magnitude then none
  else
    match exponent with
    | .ofNat n => nearest? (digits * tenTo n) 1
    | .negSucc n => nearest? digits (tenTo (n + 1))

/-- The fractions that are rounded to a number lie between `low` and `high`, with the number itself
at `middle`. All three have the denominator `den`, and the bounds belong to them if `closed`. -/
structure Interval where
  low : Nat
  middle : Nat
  high : Nat
  den : Nat
  closed : Bool

/-- The fractions that are rounded to a number. Below a power of 2 the numbers lie closer. -/
def interval (number : Binary64) : Interval :=
  let m := 4 * number.significand
  let below := if number.significand = twoTo 52 ∧ leastExponent < number.exponent then 1 else 2
  let closed := number.significand % 2 = 0
  match number.exponent - 2 with
  | .ofNat n => ⟨(m - below) * twoTo n, m * twoTo n, (m + 2) * twoTo n, 1, closed⟩
  | .negSucc n => ⟨m - below, m, m + 2, twoTo (n + 1), closed⟩

namespace Interval

/-- A fraction `digits * 10 ^ exponent` with the denominator of an interval, as a multiple of
`1 / (den * scale)`. -/
def scaled (interval : Interval) (digits : Nat) : Int → Nat × Nat
  | .ofNat n => (digits * tenTo n * interval.den, 1)
  | .negSucc n => (digits * interval.den, tenTo (n + 1))

/-- Whether `digits * 10 ^ exponent` lies in an interval. -/
def contains (interval : Interval) (digits : Nat) (exponent : Int) : Bool :=
  let (value, scale) := interval.scaled digits exponent
  if interval.closed then interval.low * scale ≤ value && value ≤ interval.high * scale
  else interval.low * scale < value && value < interval.high * scale

/-- The greatest `digits` with `digits * 10 ^ exponent` not above the middle. -/
def floor (interval : Interval) : Int → Nat
  | .ofNat n => interval.middle / (tenTo n * interval.den)
  | .negSucc n => interval.middle * tenTo (n + 1) / interval.den

/-- Whether `(digits + 1) * 10 ^ exponent` is as near to the middle as `digits * 10 ^ exponent`,
which is not above it, or nearer. -/
def isNearAbove (interval : Interval) (digits : Nat) (exponent : Int) : Bool :=
  let (below, scale) := interval.scaled digits exponent
  let (above, _) := interval.scaled (digits + 1) exponent
  above + below ≤ 2 * interval.middle * scale

/-- The decimal exponent of the middle: it is at least `10 ^ (e - 1)` and less than `10 ^ e`. -/
def magnitude (interval : Interval) : Int :=
  let whole := interval.middle / interval.den
  if whole ≠ 0 then (toDigits whole).length
  else 1 - ((toDigits ((interval.den - 1) / interval.middle)).length : Int)

/-- The number with the fewest digits in an interval, tried from `count` digits on, as digits and
exponent. Of two numbers with as many digits the nearer to the middle is taken, or the larger. -/
def shortestFrom (interval : Interval) (count : Nat) : Nat → Nat × Int
  | 0 =>
      let exponent := interval.magnitude - count
      (interval.floor exponent, exponent)
  | fuel + 1 =>
      let exponent := interval.magnitude - count
      let digits := interval.floor exponent
      match interval.contains digits exponent, interval.contains (digits + 1) exponent with
      | true, false => (digits, exponent)
      | false, true => (digits + 1, exponent)
      | true, true =>
          (if interval.isNearAbove digits exponent then digits + 1 else digits, exponent)
      | false, false => interval.shortestFrom (count + 1) fuel

end Interval

/-- The text of a number with the fewest digits that are rounded to it, written out in full.
Seventeen digits are always enough. -/
def text (number : Binary64) : List Char :=
  if number.significand = 0 then ['0', '.', '0']
  else
    let (digits, exponent) := number.interval.shortestFrom 1 17
    let zeros := ((toDigits digits).reverse.takeWhile (· = '0')).length
    positional (digits / tenTo zeros) (exponent + zeros)

end Binary64

end OberonImports.Number
