import OberonImports.Proofs.Text.Cut
import OberonImports.Proofs.Text.Pattern

/-!
# Removing what a regular expression matches

The matches of a regular expression are removed from left to right. Behind a match the search goes on
in the text as it was, so what stands around a removed match is never matched together. A word is
matched letter by letter. Between two words, a reluctant repetition takes what stands before the
first occurrence of the second.
-/

namespace OberonImports.Text.Pattern

variable {pattern : Pattern} {mark before text word : List Char} {captured : Option (List Char)}
  {last : Place} {c : Char}

/-- The given word and nothing else. -/
def literal : List Char → Pattern
  | [] => empty
  | c :: word => (one (· = c)).followed (literal word)

/-- Any characters, as few as possible first. -/
def anyReluctant : Pattern := reluctant fun _ => true

/-- What is left of a text when the preferred matches of a pattern are removed; `before` has been
passed. A match that takes nothing removes nothing. -/
def removeAll (pattern : Pattern) (before : List Char) : List Char → List Char
  | [] => []
  | c :: text =>
      match (pattern.ends ⟨before, c :: text, none⟩).head? with
      | none => c :: removeAll pattern (c :: before) text
      | some last =>
          if last.rest.length ≤ text.length then removeAll pattern last.before last.rest
          else c :: removeAll pattern (c :: before) text
termination_by text => text.length

theorem removeAll_nil : pattern.removeAll before [] = [] := by
  rw [removeAll]

theorem removeAll_of_no_match (hnone : (pattern.ends ⟨before, c :: text, none⟩).head? = none) :
    pattern.removeAll before (c :: text) = c :: pattern.removeAll (c :: before) text := by
  rw [removeAll, hnone]

/-- A text in front is kept if no match begins in it. -/
theorem removeAll_append {front : List Char}
    (hnone : ∀ first c back, front = first ++ c :: back → ∀ before,
      (pattern.ends ⟨before, c :: (back ++ text), none⟩).head? = none) :
    pattern.removeAll before (front ++ text) =
      front ++ pattern.removeAll (front.reverse ++ before) text := by
  induction front generalizing before with
  | nil => rfl
  | cons c front ih =>
      rw [List.cons_append, removeAll_of_no_match (hnone [] c front rfl before), ih]
      · simp
      · intro first d back hfront
        exact hnone (c :: first) d back (by rw [hfront, List.cons_append])

theorem removeAll_of_match (hlast : (pattern.ends ⟨before, text, none⟩).head? = some last)
    (hshort : last.rest.length < text.length) :
    pattern.removeAll before text = pattern.removeAll last.before last.rest := by
  cases text with
  | nil => exact absurd hshort (Nat.not_lt_zero _)
  | cons c text =>
      rw [removeAll, hlast]
      exact if_pos (Nat.lt_succ_iff.mp hshort)

theorem ends_literal : (literal word).ends ⟨before, text, captured⟩ =
    (dropMark? word text).toList.map fun rest => ⟨word.reverse ++ before, rest, captured⟩ := by
  induction word generalizing before text with
  | nil => simp [literal, ends, dropMark?]
  | cons k word ih =>
      cases text with
      | nil => simp [literal, ends, dropMark?]
      | cons c text =>
          by_cases hc : k = c
          · simp [literal, ends, dropMark?, hc, Place.pass, ih]
          · simp [literal, ends, dropMark?, hc, Ne.symm hc]

theorem ends_anyReluctant_nil :
    anyReluctant.ends ⟨before, [], captured⟩ = [⟨before, [], captured⟩] := rfl

/-- A reluctant repetition prefers to take nothing. -/
theorem ends_anyReluctant_cons : anyReluctant.ends ⟨before, c :: text, captured⟩ =
    ⟨before, c :: text, captured⟩ :: anyReluctant.ends ⟨c :: before, text, captured⟩ := by
  simp [anyReluctant, ends, counts, List.range_succ_eq_map, Place.pass, Function.comp_def]

/-- The repetition takes what stands before the first occurrence of the word behind it. -/
theorem head?_ends_anyReluctant :
    ((anyReluctant.followed (literal mark)).ends ⟨before, text, captured⟩).head? =
      (cut? mark text).map fun pieces =>
        ⟨mark.reverse ++ (pieces.1.reverse ++ before), pieces.2, captured⟩ := by
  induction text generalizing before with
  | nil =>
      cases hdrop : dropMark? mark [] <;>
        simp [ends, ends_anyReluctant_nil, ends_literal, cut?, cutFrom?, hdrop]
  | cons c text ih =>
      cases hdrop : dropMark? mark (c :: text) with
      | some rest =>
          have hcut : cut? mark (c :: text) = some ([], rest) := by simp [cut?, cutFrom?, hdrop]
          simp [ends, ends_anyReluctant_cons, ends_literal, hdrop, hcut]
      | none =>
          have hnext : ((anyReluctant.followed (literal mark)).ends
                ⟨before, c :: text, captured⟩).head? =
              ((anyReluctant.followed (literal mark)).ends ⟨c :: before, text, captured⟩).head? := by
            simp [ends, ends_anyReluctant_cons, ends_literal, hdrop]
          rw [hnext, ih, cut?_cons_of_not_front (dropMark?_eq_none.mp hdrop)]
          simp [Function.comp_def]

end OberonImports.Text.Pattern
