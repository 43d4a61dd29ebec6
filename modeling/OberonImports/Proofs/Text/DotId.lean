import Mathlib.Data.List.Basic
import OberonImports.Text.DotId

/-!
# Reading quoted identifiers

The reader undoes the quoting of an identifier, whatever text follows: only the closing quote stands
without a backslash before it.
-/

namespace OberonImports.Text.DotId

variable {name rest text : List Char}

/-- By induction on the identifier, for every text behind it. -/
theorem unescape?_escape (name rest : List Char) :
    unescape? (escape name ++ '"' :: rest) = some (name, rest) := by
  induction name with
  | nil => rfl
  | cons c name ih =>
      unfold escape
      split
      next hspecial => simp [unescape?, ih]
      next hplain =>
        rw [not_or] at hplain
        rw [List.cons_append, unescape?]
        · rw [ih]
          rfl
        · exact hplain.1
        · intro d rest heq
          exact absurd heq hplain.2

theorem toList_quote (id : String) : (quote id).toList = '"' :: (escape id.toList ++ ['"']) :=
  String.toList_ofList

/-- The reader finds the identifier and the text behind it. -/
theorem read?_quote (id : String) (rest : List Char) :
    read? ((quote id).toList ++ rest) = some (id.toList, rest) := by
  rw [toList_quote, List.cons_append, List.append_assoc]
  exact unescape?_escape id.toList rest

/-- What is read does not depend on the text behind it. -/
theorem unescape?_append {after : List Char} (hread : unescape? text = some (name, rest)) :
    unescape? (text ++ after) = some (name, rest ++ after) := by
  fun_induction unescape? text generalizing name with
  | case1 => cases hread
  | case2 text =>
      cases hread
      rfl
  | case3 c text ih =>
      obtain ⟨⟨inner, behind⟩, hinner, hpair⟩ := Option.map_eq_some_iff.mp hread
      cases hpair
      simp [unescape?, ih hinner]
  | case4 c text hquote hbackslash ih =>
      obtain ⟨⟨inner, behind⟩, hinner, hpair⟩ := Option.map_eq_some_iff.mp hread
      cases hpair
      rw [List.cons_append, unescape?]
      · simp [ih hinner]
      · exact hquote
      · intro d tail hc _
        cases text with
        | nil => cases hinner
        | cons next text => exact hbackslash next text hc rfl

theorem length_lt_of_unescape? (hread : unescape? text = some (name, rest)) :
    rest.length < text.length := by
  fun_induction unescape? text generalizing name with
  | case1 => cases hread
  | case2 text =>
      cases hread
      exact Nat.lt_succ_self _
  | case3 c text ih | case4 c text hquote hbackslash ih =>
      obtain ⟨⟨inner, after⟩, hinner, hpair⟩ := Option.map_eq_some_iff.mp hread
      cases hpair
      have hshort := ih hinner
      simp only [List.length_cons]
      omega

end OberonImports.Text.DotId
