import Std.Data.TreeMap.Lemmas
import OberonImports.Proofs.Graph.RankTable

/-!
# Filling the tables of ranks

Ranked nodes may be entered in any order into tables by name and by rank, where a level takes names
as they come and is sorted in the end. Whatever the order, the tables tell the ranks, the levels and
the highest rank.
-/

namespace OberonImports

open Lookup

/-- Tables of ranked nodes: by name, by rank, and the highest rank. -/
structure RankTables where
  ranks : Std.TreeMap String Nat
  levels : Std.TreeMap Nat (List String)
  maxRank : Nat

namespace RankTables

variable {tables : RankTables} {pairs drained : List (String × Nat)} {pair : String × Nat}

def empty : RankTables := ⟨∅, ∅, 0⟩

/-- Enter a ranked node. -/
def enter (tables : RankTables) (pair : String × Nat) : RankTables where
  ranks := tables.ranks.insert pair.1 pair.2
  levels := tables.levels.alter pair.2 fun names => some (names.getD [] ++ [pair.1])
  maxRank := max tables.maxRank pair.2

/-- Sort the names of each level. -/
def sortLevels (tables : RankTables) : RankTables :=
  { tables with levels := tables.levels.map fun _ names => names.mergeSort (· ≤ ·) }

/-- Enter ranked nodes one after the other, and sort the levels in the end. -/
def drain (pairs : List (String × Nat)) : RankTables := (pairs.foldl enter empty).sortLevels

/-- What the tables hold, each in ascending order of its keys. -/
def contents (tables : RankTables) : List (String × Nat) × List (Nat × List String) × Nat :=
  (tables.ranks.toList, tables.levels.toList, tables.maxRank)

/-- The tables hold the nodes entered so far: each under its name, and under each rank that occurs
the names in the order in which they came. -/
structure Hold (pairs : List (String × Nat)) (tables : RankTables) : Prop where
  ranks : ∀ name rank, tables.ranks[name]? = some rank ↔ (name, rank) ∈ pairs
  levels : ∀ rank, tables.levels[rank]? =
    if (Ranks.mk pairs).level rank = [] then none else some ((Ranks.mk pairs).level rank)
  maxRank : tables.maxRank = (Ranks.mk pairs).maxRank

theorem hold_empty : Hold [] empty where
  ranks := by simp [empty]
  levels := by simp [empty, Ranks.level]
  maxRank := rfl

theorem level_concat (rank : Nat) : (Ranks.mk (pairs ++ [pair])).level rank =
    (Ranks.mk pairs).level rank ++ if pair.2 = rank then [pair.1] else [] := by
  by_cases hrank : pair.2 = rank <;> simp [Ranks.level, List.filter_append, hrank]

/-- Entering one more node. -/
theorem Hold.enter (hhold : Hold pairs tables) (hnew : pair.1 ∉ keys pairs) :
    Hold (pairs ++ [pair]) (tables.enter pair) where
  ranks := by
    intro name rank
    rw [RankTables.enter, Std.TreeMap.getElem?_insert, List.mem_append, List.mem_singleton]
    by_cases hname : pair.1 = name
    · have hnone : (name, rank) ∉ pairs := fun hmem => hnew (hname ▸ mem_keys_of_mem hmem)
      simp [hname, hnone, Prod.ext_iff, eq_comm]
    · have hne : (name, rank) ≠ pair := fun heq => hname (heq ▸ rfl)
      simp [hname, hne, hhold.ranks]
  levels := by
    intro rank
    rw [RankTables.enter, Std.TreeMap.getElem?_alter, level_concat]
    by_cases hrank : pair.2 = rank
    · -- The name goes to the end of its level, or begins the level.
      have hold := hhold.levels rank
      rw [if_pos (by simp [hrank]), if_pos hrank, hrank, hold]
      split
      next hempty => simp [hempty]
      next => simp
    · simp [hrank, hhold.levels]
  maxRank := by
    simp [RankTables.enter, hhold.maxRank, Ranks.maxRank]

/-- By induction from the last node entered. -/
theorem hold_foldl (hnodup : (keys pairs).Nodup) : Hold pairs (pairs.foldl enter empty) := by
  induction pairs using List.reverseRecOn with
  | nil => exact hold_empty
  | append_singleton pairs pair ih =>
      rw [keys, List.map_append] at hnodup
      rw [List.foldl_append]
      apply (ih hnodup.of_append_left).enter
      exact fun hmem => List.disjoint_of_nodup_append hnodup hmem (by simp)

/-- Sorting a level as it came gives the level of the sorted ranks. -/
theorem mergeSort_level (hnodup : (keys pairs).Nodup) (hperm : drained.Perm pairs) (rank : Nat) :
    ((Ranks.mk drained).level rank).mergeSort (· ≤ ·) = (Ranks.ofList pairs).level rank := by
  have hdistinct : ((Ranks.mk drained).level rank).Nodup :=
    ((hperm.map _).nodup_iff.mpr hnodup).sublist (List.filter_sublist.map _)
  apply (pairwise_mergeSort_of_nodup hdistinct).eq_of_mem_iff
    (Ranks.pairwise_level (Ranks.pairwise_ofList hnodup) rank)
  intro name
  rw [List.mem_mergeSort, Ranks.mem_level, Ranks.mem_level, Ranks.mem_ofList, hperm.mem_iff]

/-- Nodes that are ranked once fill the tables alike in any order. -/
theorem contents_drain (hnodup : (keys pairs).Nodup) (hperm : drained.Perm pairs) :
    (drain drained).contents =
      ((Ranks.ofList pairs).byName, (Ranks.ofList pairs).levels, (Ranks.ofList pairs).maxRank) := by
  have hhold := hold_foldl ((hperm.map _).nodup_iff.mpr hnodup)
  have hranks : (drain drained).ranks.toList = (Ranks.ofList pairs).byName := by
    apply eq_of_ascending_keys _ (Ranks.pairwise_ofList hnodup)
    · intro name rank
      rw [Std.TreeMap.mem_toList_iff_getElem?_eq_some, drain, sortLevels, hhold.ranks,
        Ranks.mem_ofList, hperm.mem_iff]
    · exact Std.TreeMap.ordered_keys_toList.imp compare_lt_iff_lt.mp
  have hlevels : (drain drained).levels.toList = (Ranks.ofList pairs).levels := by
    apply eq_of_ascending_keys _ (Ranks.pairwise_levels _)
    · intro rank names
      rw [Std.TreeMap.mem_toList_iff_getElem?_eq_some, drain, sortLevels, Std.TreeMap.getElem?_map,
        hhold.levels, Ranks.mem_levels, ← mergeSort_level hnodup hperm]
      split
      next hempty => simp [hempty]
      next hne =>
        have hsorted : ((Ranks.mk drained).level rank).mergeSort (· ≤ ·) ≠ [] :=
          fun hempty => hne (List.perm_nil.mp (hempty ▸ (List.mergeSort_perm _ _).symm))
        rw [Option.map_some, Option.some_inj, iff_and_self]
        exact fun heq => heq ▸ hsorted
    · exact Std.TreeMap.ordered_keys_toList.imp compare_lt_iff_lt.mp
  have hmax : (drain drained).maxRank = (Ranks.ofList pairs).maxRank := by
    calc (drain drained).maxRank = (Ranks.mk drained).maxRank := hhold.maxRank
      _ = (Ranks.ofList pairs).maxRank :=
        Ranks.maxRank_of_perm (hperm.trans (List.mergeSort_perm pairs _).symm)
  rw [contents, hranks, hlevels, hmax]

end RankTables

end OberonImports
