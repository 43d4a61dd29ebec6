import Mathlib.Data.List.Induction
import Mathlib.Data.List.Sort
import Mathlib.Data.String.Basic

/-!
# Ascending lists of names

Sorting makes names that differ strictly ascending, and the sorted list does not depend on the order
in which the names came. Erasing repeats keeps the first occurrence of each item, so it keeps an
ascending order and makes it strict.
-/

namespace OberonImports

/-- Sorting by a key makes the keys ascending. -/
theorem pairwise_mergeSort_key {α κ : Type} [Preorder κ] [Std.Total (α := κ) (· ≤ ·)]
    [DecidableLE κ] (key : α → κ) (items : List α) :
    (items.mergeSort (fun lower upper => key lower ≤ key upper)).Pairwise
      fun lower upper => key lower ≤ key upper := by
  have hsorted : (items.mergeSort (fun lower upper => key lower ≤ key upper)).Pairwise
      fun lower upper => decide (key lower ≤ key upper) := by
    apply List.pairwise_mergeSort
    · intro lower middle upper hlower hupper
      exact decide_eq_true ((of_decide_eq_true hlower).trans (of_decide_eq_true hupper))
    · intro lower upper
      simpa using Std.Total.total (key lower) (key upper)
  exact hsorted.imp of_decide_eq_true

section

variable {α : Type} [LE α] [DecidableLE α] [Std.IsLinearOrder α] {names others : List α}

/-- Sorting names that differ makes them strictly ascending. -/
theorem pairwise_mergeSort_of_nodup [LT α] [Std.LawfulOrderLT α] (hnodup : names.Nodup) :
    (names.mergeSort (· ≤ ·)).Pairwise (· < ·) := by
  have hsorted := List.pairwise_mergeSort' (· ≤ ·) names
  have hdistinct := (List.mergeSort_perm names (· ≤ ·)).nodup_iff.mpr hnodup
  exact (hsorted.and hdistinct).imp fun ⟨hle, hne⟩ => Std.lt_of_le_of_ne hle hne

theorem mergeSort_of_perm (hperm : names.Perm others) :
    names.mergeSort (· ≤ ·) = others.mergeSort (· ≤ ·) := by
  have hsorted := (List.mergeSort_perm names (· ≤ ·)).trans
    (hperm.trans (List.mergeSort_perm others (· ≤ ·)).symm)
  exact hsorted.eq_of_pairwise' (List.pairwise_mergeSort' (· ≤ ·) names)
    (List.pairwise_mergeSort' (· ≤ ·) others)

theorem mergeSort_eq_of_perm (hperm : names.Perm others) (hsorted : others.Pairwise (· ≤ ·)) :
    names.mergeSort (· ≤ ·) = others :=
  (mergeSort_of_perm hperm).trans (List.mergeSort_of_pairwise (hsorted.imp decide_eq_true))

end

/-- Lists of pairs with strictly ascending keys are equal if they hold the same pairs. -/
theorem eq_of_ascending_keys {κ α : Type} [Preorder κ] {pairs others : List (κ × α)}
    (hpairs : pairs.Pairwise fun lower upper => lower.1 < upper.1)
    (hothers : others.Pairwise fun lower upper => lower.1 < upper.1)
    (hmem : ∀ key value, (key, value) ∈ pairs ↔ (key, value) ∈ others) : pairs = others := by
  have hirrefl : Std.Irrefl fun lower upper : κ × α => lower.1 < upper.1 :=
    ⟨fun pair => lt_irrefl pair.1⟩
  exact hpairs.eq_of_mem_iff hothers fun ⟨key, value⟩ => hmem key value

section

variable {α : Type} [DecidableEq α]

/-- A further item is kept unless it is a repeat. -/
theorem eraseDups_concat (items : List α) (item : α) :
    (items ++ [item]).eraseDups =
      if item ∈ items then items.eraseDups else items.eraseDups ++ [item] := by
  rw [List.eraseDups_append]
  split
  next hmem => simp [List.removeAll, hmem]
  next hnew => simp [List.removeAll, hnew, List.eraseDups_cons]

theorem nodup_eraseDups (items : List α) : items.eraseDups.Nodup := by
  induction items using List.reverseRecOn with
  | nil => simp
  | append_singleton items item ih =>
      rw [eraseDups_concat]
      split
      next => exact ih
      next hnew =>
        have hdisjoint : item ∉ items.eraseDups := fun hmem => hnew (List.mem_eraseDups.mp hmem)
        exact List.nodup_append.mpr ⟨ih, List.pairwise_singleton _ item,
          fun other hother last hlast heq =>
            hdisjoint (List.mem_singleton.mp hlast ▸ heq ▸ hother)⟩

theorem eraseDups_sublist (items : List α) : items.eraseDups.Sublist items := by
  induction items using List.reverseRecOn with
  | nil => simp
  | append_singleton items item ih =>
      rw [eraseDups_concat]
      split
      next => exact ih.trans (List.sublist_append_left items [item])
      next => exact ih.append (List.Sublist.refl [item])

end

/-- Sorting and erasing repeats makes a list strictly ascending. -/
theorem pairwise_eraseDups_mergeSort (names : List String) :
    (names.mergeSort (· ≤ ·)).eraseDups.Pairwise (· < ·) := by
  have hsorted := (List.pairwise_mergeSort' (· ≤ ·) names).sublist (eraseDups_sublist _)
  exact (hsorted.and (nodup_eraseDups _)).imp fun ⟨hle, hne⟩ => lt_of_le_of_ne hle hne

end OberonImports
