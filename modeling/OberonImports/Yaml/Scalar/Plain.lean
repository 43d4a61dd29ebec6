import OberonImports.Yaml.Scalar.Folding

/-!
# Plain scalars

A plain scalar has no quotes. It ends before a colon with a blank behind it, before a comment,
before a line that is indented less than its surroundings, and inside brackets before a comma or a
bracket. The blanks at its end do not belong to it.
-/

namespace OberonImports.Yaml

/-- What surrounds a plain scalar: whether it stands inside brackets, and the least column of its
further lines. -/
structure PlainContext where
  inFlow : Bool
  column : Nat

/-- The text of a plain scalar, the cursor behind it and the blanks that follow it, and whether
there are line breaks among these. -/
structure PlainScalar where
  text : List Char
  rest : Cursor
  brokeLine : Bool

/-- Whether a character ends or starts a collection inside brackets, or separates its items. -/
def isFlowSign (c : Char) : Bool := c = ',' || c = '[' || c = ']' || c = '\x7b' || c = '\x7d'

/-- Read on inside a plain scalar, or at its start. What has been read is in `read`, last character
first. -/
def plainScalar? (context : PlainContext) (mark : Mark) (stretch : Stretch) (read : List Char) :
    List Char → Option PlainScalar
  | [] => some ⟨read.reverse, ⟨[], mark⟩, stretch.hasBreak⟩
  | c :: text =>
      if isBreak c then plainScalar? context (mark.next c) (stretch.addBreak c) read text
      else if isGap c then
        if stretch.hasBreak && mark.column < context.column && c = '\t' then none
        else plainScalar? context (mark.next c) (stretch.addBlank c) read text
      else
        let ended : PlainScalar := ⟨read.reverse, ⟨c :: text, mark⟩, stretch.hasBreak⟩
        if stretch ≠ .none ∧ (c = '#' ∨ mark.atDocumentSign (c :: text)
            ∨ (!context.inFlow ∧ mark.column < context.column)) then some ended
        else if context.inFlow ∧ c = ':' ∧
            (text.head?.any fun after => isFlowSign after || after = '?') then none
        else if (c = ':' ∧ atGap text) ∨ (context.inFlow ∧ isFlowSign c) then some ended
        else
          plainScalar? context (mark.next c) .none (c :: (stretch.folded.reverse ++ read)) text

end OberonImports.Yaml
