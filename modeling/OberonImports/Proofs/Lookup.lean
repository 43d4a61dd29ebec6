import Mathlib.Data.List.Nodup

/-!
# Lists of pairs with distinct keys

In a list of pairs whose keys differ, looking a key up finds the one pair that has it. The answer
does not depend on the order of the pairs and stays when pairs with other keys are added.
-/

namespace OberonImports.Lookup

variable {κ α : Type} {pairs longer : List (κ × α)} {key : κ} {value : α}

/-- The keys of a list of pairs. -/
def keys (pairs : List (κ × α)) : List κ := pairs.map (·.1)

@[simp]
theorem keys_cons (pair : κ × α) (pairs : List (κ × α)) :
    keys (pair :: pairs) = pair.1 :: keys pairs := rfl

@[simp]
theorem keys_nil : keys ([] : List (κ × α)) = [] := rfl

theorem mem_keys_of_mem (hmem : (key, value) ∈ pairs) : key ∈ keys pairs :=
  List.mem_map.mpr ⟨(key, value), hmem, rfl⟩

variable [BEq κ] [LawfulBEq κ]

theorem lookup_eq_none : pairs.lookup key = none ↔ key ∉ keys pairs := by
  simp only [List.lookup_eq_none_iff, keys, List.mem_map, not_exists, not_and, bne_iff_ne]
  exact ⟨fun hne pair hpair heq => hne pair hpair heq.symm,
    fun hne pair hpair heq => hne pair hpair heq.symm⟩

theorem mem_keys_of_lookup (hlookup : pairs.lookup key = some value) : key ∈ keys pairs := by
  by_contra hnot
  rw [lookup_eq_none.mpr hnot] at hlookup
  cases hlookup

theorem exists_lookup (hkey : key ∈ keys pairs) : ∃ value, pairs.lookup key = some value := by
  cases hlookup : pairs.lookup key with
  | none => exact absurd hkey (lookup_eq_none.mp hlookup)
  | some value => exact ⟨value, rfl⟩

theorem lookup_eq_some (hnodup : (keys pairs).Nodup) :
    pairs.lookup key = some value ↔ (key, value) ∈ pairs := by
  induction pairs with
  | nil => simp
  | cons pair pairs ih =>
      obtain ⟨head, old⟩ := pair
      obtain ⟨hhead, htail⟩ := List.nodup_cons.mp hnodup
      by_cases heq : key = head
      · subst heq
        have hnot : (key, value) ∉ pairs := fun hmem => hhead (mem_keys_of_mem hmem)
        simp [hnot, eq_comm]
      · have hskip : ((head, old) :: pairs).lookup key = pairs.lookup key := by
          simp [List.lookup_cons, beq_false_of_ne heq]
        rw [hskip, ih htail]
        simp [heq]

/-- A pair found in a list is found in every longer list whose keys differ too. -/
theorem lookup_of_suffix (hnodup : (keys longer).Nodup) (hsuffix : pairs <:+ longer)
    (hlookup : pairs.lookup key = some value) : longer.lookup key = some value := by
  have hkeys : (keys pairs).Nodup := hnodup.sublist (hsuffix.sublist.map _)
  rw [lookup_eq_some hkeys] at hlookup
  rw [lookup_eq_some hnodup]
  exact hsuffix.subset hlookup

/-- What is looked up for a known key stays when other pairs are added. -/
theorem getD_lookup_of_suffix (hnodup : (keys longer).Nodup) (hsuffix : pairs <:+ longer)
    (hkey : key ∈ keys pairs) (default : α) :
    (longer.lookup key).getD default = (pairs.lookup key).getD default := by
  obtain ⟨value, hvalue⟩ := exists_lookup hkey
  rw [hvalue, lookup_of_suffix hnodup hsuffix hvalue]

theorem lookup_perm (hnodup : (keys pairs).Nodup) (hperm : pairs.Perm longer) :
    pairs.lookup key = longer.lookup key := by
  have hkeys : (keys longer).Nodup := (hperm.map _).nodup_iff.mp hnodup
  apply Option.ext
  intro value
  rw [lookup_eq_some hnodup, lookup_eq_some hkeys, hperm.mem_iff]

omit [BEq κ] [LawfulBEq κ] in
theorem keys_subset_of_suffix (hsuffix : pairs <:+ longer) (hkey : key ∈ keys pairs) :
    key ∈ keys longer :=
  List.map_subset _ hsuffix.subset hkey

end OberonImports.Lookup
