/-!
# Sets of characters given by ranges of codes

A Unicode property is a table of ranges in ascending order. Membership walks the table and stops
at the first range that begins above the code.
-/

namespace OberonImports.Text

/-- The codes from `first` to `last`, both included. -/
structure CodeRange where
  first : Nat
  last : Nat

/-- Whether a code lies in one of the ranges of an ascending table. -/
def inRanges : List CodeRange → Nat → Bool
  | [], _ => false
  | range :: ranges, code =>
      if code < range.first then false
      else if code ≤ range.last then true
      else inRanges ranges code

/-- A table written as pairs of first and last codes. -/
def rangesOf (pairs : List (Nat × Nat)) : List CodeRange :=
  pairs.map fun (first, last) => ⟨first, last⟩

end OberonImports.Text
