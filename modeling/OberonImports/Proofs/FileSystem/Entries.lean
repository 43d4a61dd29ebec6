import Mathlib.Data.List.Nodup
import OberonImports.FileSystem.Walk
import OberonImports.Proofs.Ascending
import OberonImports.Proofs.Lookup

/-!
# What directories hold

A directory holds the names under which something stands right below it, in strictly ascending
order. The order of the entries of a file system makes no difference: not to what stands at a
location or below a directory, not to where a path leads, and not to a walk.
-/

namespace OberonImports.FileSystem

open Lookup

variable {fs other : FileSystem} {directory location : Location} {name : FileName}

theorem entry?_concat :
    fs.entry? (directory ++ [name]) = fs.entries.lookup (directory ++ [name]) := by
  cases directory <;> rfl

/-- A location gives a directory a name if it is one name below it. -/
theorem childName_eq_some :
    (if location.dropLast = directory then location.getLast? else none) = some name ↔
      location = directory ++ [name] := by
  constructor
  · intro hname
    split at hname
    next hdirectory => rw [← hdirectory, List.dropLast_append_getLast? name hname]
    next => cases hname
  · rintro rfl
    simp

theorem mem_children : name ∈ fs.children directory ↔
    ∃ entry, fs.entry? (directory ++ [name]) = some entry := by
  have hkeys : name ∈ fs.children directory ↔ directory ++ [name] ∈ keys fs.entries := by
    simp only [children, List.mem_mergeSort, List.mem_filterMap, childName_eq_some, keys,
      List.mem_map]
  rw [hkeys, entry?_concat]
  exact ⟨exists_lookup, fun ⟨_, hentry⟩ => mem_keys_of_lookup hentry⟩

theorem pairwise_children (fs : FileSystem) (directory : Location) :
    (fs.children directory).Pairwise (· < ·) := by
  have hnodup : ((keys fs.entries).filterMap fun location =>
      if location.dropLast = directory then location.getLast? else none).Nodup := by
    refine fs.distinct.filterMap fun first second name hfirst hsecond => ?_
    rw [childName_eq_some.mp hfirst, childName_eq_some.mp hsecond]
  rw [keys, List.filterMap_map] at hnodup
  exact pairwise_mergeSort_of_nodup hnodup

/-- A path is followed name by name unless it is empty, too long or holds a zero octet. -/
theorem resolve_eq_followNames {path : Path} (hnul : path.contains 0 = false)
    (hne : path ≠ []) (hsize : path.length ≤ maxPathSize) : fs.resolve path =
      fs.followNames .find maxLinks (if Path.isAbsolute path then [] else fs.cwd)
        (pathNames path) := by
  rw [resolve, resolveFor, hnul, if_neg hne, if_neg (Nat.not_lt.mpr hsize)]
  rfl

/-- A path leads somewhere if its names do and it is neither empty nor too long. -/
theorem resolveFor_eq_ok {purpose : Purpose} {path : Path} {location : Location} :
    fs.resolveFor purpose path = .ok location ↔
    path.contains 0 = false ∧ path ≠ [] ∧ path.length ≤ maxPathSize ∧
    fs.followNames purpose maxLinks (if Path.isAbsolute path then [] else fs.cwd)
      (pathNames path) = .ok location := by
  unfold resolveFor
  constructor
  · intro hresolve
    split at hresolve
    next => cases hresolve
    next hnul =>
      split at hresolve
      next => cases hresolve
      next hne =>
        split at hresolve
        next => cases hresolve
        next hsize => exact ⟨Bool.eq_false_of_not_eq_true hnul, hne, Nat.not_lt.mp hsize, hresolve⟩
  · intro ⟨hnul, hne, hsize, hfollow⟩
    rw [hnul, if_neg Bool.false_ne_true, if_neg hne, if_neg (Nat.not_lt.mpr hsize)]
    exact hfollow

/-! ## The order of the entries -/

theorem entry?_of_perm (hperm : other.entries.Perm fs.entries) (location : Location) :
    other.entry? location = fs.entry? location := by
  cases location with
  | nil => rfl
  | cons name names => exact lookup_perm other.distinct hperm

theorem children_of_perm (hperm : other.entries.Perm fs.entries) (directory : Location) :
    other.children directory = fs.children directory :=
  mergeSort_of_perm (hperm.filterMap _)

theorem followNames_of_perm (hperm : other.entries.Perm fs.entries) (purpose : Purpose)
    (links : Nat) (base : Location) (names : List FileName) :
    other.followNames purpose links base names = fs.followNames purpose links base names := by
  have hentry := entry?_of_perm hperm
  fun_induction fs.followNames purpose links base names <;>
    rw [followNames] <;> grind

theorem resolve_of_perm (hperm : other.entries.Perm fs.entries) (hcwd : other.cwd = fs.cwd)
    (path : Path) : other.resolve path = fs.resolve path := by
  simp only [resolve, resolveFor, followNames_of_perm hperm, hcwd]

theorem read_of_perm (hperm : other.entries.Perm fs.entries) (hcwd : other.cwd = fs.cwd)
    (path : Path) : other.read path = fs.read path := by
  simp only [read, resolve_of_perm hperm hcwd, entry?_of_perm hperm]

theorem walkNames_of_perm (hperm : other.entries.Perm fs.entries) (hcwd : other.cwd = fs.cwd)
    (directory : Visit) (outer : List Visit) (names : List FileName) :
    other.walkNames directory outer names = fs.walkNames directory outer names := by
  have hentry := entry?_of_perm hperm
  have hchildren := children_of_perm hperm
  have hresolve := resolve_of_perm hperm hcwd
  fun_induction fs.walkNames directory outer names <;>
    rw [walkNames] <;> grind

theorem walk_of_perm (hperm : other.entries.Perm fs.entries) (hcwd : other.cwd = fs.cwd)
    (root : Path) : other.walk root = fs.walk root := by
  simp only [walk, resolve_of_perm hperm hcwd, entry?_of_perm hperm, children_of_perm hperm,
    walkNames_of_perm hperm hcwd]

end OberonImports.FileSystem
