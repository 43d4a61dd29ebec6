import OberonImports.Proofs.Graph.Cycles
import OberonImports.Proofs.Graph.Descent
import OberonImports.Proofs.Graph.Drain

/-!
# Consistent tables of ranks

The tables by name and by rank and the highest rank tell the same thing three times. In whatever
order the ranked nodes were entered, the tables agree with each other and with the ranks: a name has
a rank in the one table exactly if it stands in the level of this rank in the other.
-/

namespace OberonImports

open Lookup

namespace RankTables

variable {tables : RankTables} {ranks : Ranks} {drained : List (String × Nat)} {name : String}
  {rank : Nat}

def rank? (tables : RankTables) (name : String) : Option Nat := tables.ranks[name]?

/-- The names of one rank, or none if no name has it. -/
def level (tables : RankTables) (rank : Nat) : List String := tables.levels.getD rank []

/-- The tables rank the given names and agree with each other. -/
structure Consistent (names : List String) (tables : RankTables) : Prop where
  covers : ∀ name, (∃ rank, tables.rank? name = some rank) ↔ name ∈ names
  rank_iff : ∀ name rank, tables.rank? name = some rank ↔ name ∈ tables.level rank
  level_ascending : ∀ rank, (tables.level rank).Pairwise (· < ·)
  levels_ascending : tables.levels.toList.Pairwise fun lower upper => lower.1 < upper.1
  levels_inhabited : ∀ level ∈ tables.levels.toList, level.2 ≠ []
  levels_iff : ∀ rank, tables.level rank ≠ [] ↔ (rank, tables.level rank) ∈ tables.levels.toList
  exists_unique_level : ∀ name ∈ names, ∃! level, level ∈ tables.levels.toList ∧ name ∈ level.2
  le_maxRank : ∀ name rank, tables.rank? name = some rank → rank ≤ tables.maxRank
  maxRank_present : names ≠ [] → ∃ name, tables.rank? name = some tables.maxRank
  maxRank_empty : names = [] → tables.maxRank = 0

/-- The tables tell what some ranks tell. -/
structure Tell (ranks : Ranks) (tables : RankTables) : Prop where
  rank? : ∀ name, tables.rank? name = ranks.rank? name
  level : ∀ rank, tables.level rank = ranks.level rank
  levels : tables.levels.toList = ranks.levels
  maxRank : tables.maxRank = ranks.maxRank

theorem rank?_eq (hnodup : (keys ranks.byName).Nodup) (hranks : tables.ranks.toList = ranks.byName)
    (name : String) : tables.rank? name = ranks.rank? name := by
  apply Option.ext
  intro rank
  rw [rank?, ← Std.TreeMap.mem_toList_iff_getElem?_eq_some, hranks, Ranks.rank?,
    lookup_eq_some hnodup]

theorem level_eq (hlevels : tables.levels.toList = ranks.levels) (rank : Nat) :
    tables.level rank = ranks.level rank := by
  have hheld : ∀ names, tables.levels[rank]? = some names ↔ names ≠ [] ∧ ranks.level rank = names := by
    intro names
    rw [← Std.TreeMap.mem_toList_iff_getElem?_eq_some, hlevels, Ranks.mem_levels]
  rw [level, Std.TreeMap.getD_eq_getD_getElem?]
  cases hget : tables.levels[rank]? with
  | none =>
      by_contra hne
      have hsome := (hheld _).mpr ⟨Ne.symm hne, rfl⟩
      rw [hget] at hsome
      cases hsome
  | some names => exact ((hheld names).mp hget).2.symm

/-- However ranked nodes are entered, the tables tell their ranks. -/
theorem tell_drain {pairs : List (String × Nat)} (hnodup : (keys pairs).Nodup)
    (hperm : drained.Perm pairs) : (drain drained).Tell (.ofList pairs) := by
  obtain ⟨hranks, hlevels, hmax⟩ : _ ∧ _ ∧ _ := by
    simpa only [contents, Prod.mk.injEq] using contents_drain hnodup hperm
  exact ⟨rank?_eq (Ranks.nodup_keys_ofList hnodup) hranks, level_eq hlevels, hlevels, hmax⟩

end RankTables

namespace Graph

variable {graph : Graph} {tables : RankTables} {drained : List (String × Nat)}

/-- The highest rank is the rank of some node, if there are nodes. -/
theorem exists_rankOf_eq_maxRank (hgraph : graph.WellFormed) (hne : graph.names ≠ []) :
    ∃ name ∈ graph.names, graph.rankOf name = graph.ranks.maxRank := by
  rcases maxRank_eq_zero_or hgraph with hzero | hsome
  · obtain ⟨name, hname⟩ := List.exists_mem_of_ne_nil _ hne
    have hle : graph.rankOf name ≤ graph.ranks.maxRank :=
      Ranks.le_maxRank ((mem_byName hgraph).mpr ⟨hname, rfl⟩)
    exact ⟨name, hname, by omega⟩
  · exact hsome

/-- Tables that tell the ranks of a graph are consistent. -/
theorem consistent_of_tell (hgraph : graph.WellFormed) (htell : tables.Tell graph.ranks) :
    tables.Consistent graph.names where
  covers := by
    intro name
    simp only [htell.rank?, rank?_eq_some_iff hgraph, exists_and_left, exists_eq', and_true]
  rank_iff := by
    intro name rank
    rw [htell.rank?, htell.level, rank?_eq_some_iff hgraph, mem_level hgraph]
  level_ascending := by
    intro rank
    rw [htell.level]
    exact Ranks.pairwise_level (pairwise_byName hgraph) rank
  levels_ascending := htell.levels ▸ Ranks.pairwise_levels _
  levels_inhabited := by
    intro level hlevel
    rw [htell.levels] at hlevel
    exact (Ranks.mem_levels.mp hlevel).1
  levels_iff := by
    intro rank
    rw [htell.levels, htell.level, Ranks.mem_levels]
    exact (and_iff_left rfl).symm
  exists_unique_level := by
    intro name hname
    have hmem : name ∈ graph.ranks.level (graph.rankOf name) := (mem_level hgraph).mpr ⟨hname, rfl⟩
    rw [htell.levels]
    refine ⟨(graph.rankOf name, graph.ranks.level (graph.rankOf name)),
      ⟨Ranks.mem_levels.mpr ⟨List.ne_nil_of_mem hmem, rfl⟩, hmem⟩, ?_⟩
    rintro ⟨rank, names⟩ ⟨hlevel, hin⟩
    obtain ⟨-, rfl⟩ := Ranks.mem_levels.mp hlevel
    obtain ⟨-, rfl⟩ := (mem_level hgraph).mp hin
    rfl
  le_maxRank := by
    intro name rank hrank
    rw [htell.rank?, rank?_eq_some_iff hgraph, ← mem_byName hgraph] at hrank
    rw [htell.maxRank]
    exact Ranks.le_maxRank hrank
  maxRank_present := by
    intro hne
    obtain ⟨name, hname, hrank⟩ := exists_rankOf_eq_maxRank hgraph hne
    refine ⟨name, ?_⟩
    rw [htell.rank?, htell.maxRank, rank?_eq_some_iff hgraph]
    exact ⟨hname, hrank⟩
  maxRank_empty := by
    intro hempty
    have hbound := maxRank_le_length hgraph
    rw [List.map_eq_nil_iff.mp hempty] at hbound
    rw [htell.maxRank]
    exact Nat.le_zero.mp hbound

/-- At each step of the walk for ranks, the nodes on the path are those whose edges are being
followed, once each, and they are not ranked. The walk ends with an empty path and every node ranked
once. In whatever order the ranked nodes are then entered into the tables, each node has one rank
and stands in the one level of this rank, the levels ascend and so do the names in each of them, and
the highest rank is the highest that a node has. So the tables do not depend on the order. -/
theorem ranks_consistent (hgraph : graph.WellFormed) :
    (∀ count, ((walkStep graph)^[count] graph.walkStart).Coherent) ∧
    (∃ count, (walkStep graph)^[count] graph.walkStart = ⟨[], [], [], graph.rankWalk⟩) ∧
    graph.rankWalk.ranked.Perm graph.names ∧
    ∀ drained : List (String × Nat), drained.Perm graph.rankWalk.ranks →
      (RankTables.drain drained).Consistent graph.names ∧
      (RankTables.drain drained).Tell graph.ranks := by
  refine ⟨WalkState.coherent_iterate graph, ⟨_, takes_rankWalk hgraph⟩,
    perm_ranked_rankWalk hgraph, fun drained hperm => ?_⟩
  have htell := RankTables.tell_drain (sound_rankWalk hgraph).settled.nodup hperm
  exact ⟨consistent_of_tell hgraph htell, htell⟩

/-- The nodes of two cycles, entered in an order in which no level comes sorted. -/
theorem ranks_drained_twoCycles : twoCycles.WellFormed ∧
    [("T", 1), ("M", 2), ("S", 1), ("F", 2)].Perm twoCycles.rankWalk.ranks ∧
    (∀ rank, (RankTables.drain [("T", 1), ("M", 2), ("S", 1), ("F", 2)]).rank? "S" = some rank ↔
      "S" ∈ (RankTables.drain [("T", 1), ("M", 2), ("S", 1), ("F", 2)]).level rank) ∧
    (RankTables.drain [("T", 1), ("M", 2), ("S", 1), ("F", 2)]).level 1 = ["S", "T"] ∧
    (RankTables.drain [("T", 1), ("M", 2), ("S", 1), ("F", 2)]).maxRank = 2 := by
  have hgraph : twoCycles.WellFormed := ⟨by decide, by decide, by decide⟩
  have hwalk : twoCycles.rankWalk.ranks = [("M", 2), ("F", 2), ("T", 1), ("S", 1)] := by
    simp +decide [twoCycles, rankWalk, names, successors, RankWalk.visit, RankWalk.follow,
      RankWalk.start, RankWalk.finish, List.lookup_cons, List.mergeSort,
      List.MergeSort.Internal.splitInTwo]
  have hperm : [("T", 1), ("M", 2), ("S", 1), ("F", 2)].Perm twoCycles.rankWalk.ranks := by
    rw [hwalk]
    decide
  obtain ⟨-, -, -, htables⟩ := ranks_consistent hgraph
  obtain ⟨hconsistent, htell⟩ := htables _ hperm
  have hranks : twoCycles.ranks = ⟨[("F", 2), ("M", 2), ("S", 1), ("T", 1)]⟩ := by
    simp +decide [ranks, Ranks.ofList, hwalk, List.mergeSort, List.MergeSort.Internal.splitInTwo]
  have hlevel : twoCycles.ranks.level 1 = ["S", "T"] := by
    rw [hranks]
    decide
  have hmax : twoCycles.ranks.maxRank = 2 := by
    rw [hranks]
    decide
  exact ⟨hgraph, hperm, hconsistent.rank_iff "S", (htell.level 1).trans hlevel,
    htell.maxRank.trans hmax⟩

end Graph

end OberonImports
