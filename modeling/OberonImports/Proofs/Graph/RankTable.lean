import Mathlib.Data.List.Perm.Basic
import OberonImports.Proofs.Ascending
import OberonImports.Proofs.Graph.RankWalk

/-!
# The table of ranks

The ranks of a graph list each node once, in ascending order of names. So they are told by what each
node ranks, and the levels hold every node once.
-/

namespace OberonImports

open Lookup

namespace Ranks

variable {ranks : Ranks} {pairs : List (String × Nat)} {name : String} {rank : Nat}

theorem mem_ofList {pair : String × Nat} : pair ∈ (ofList pairs).byName ↔ pair ∈ pairs :=
  (List.mergeSort_perm pairs _).mem_iff

theorem nodup_keys_ofList (hnodup : (keys pairs).Nodup) : (keys (ofList pairs).byName).Nodup :=
  ((List.mergeSort_perm pairs _).map _).nodup_iff.mpr hnodup

/-- Names that differ are sorted into strictly ascending order. -/
theorem pairwise_ofList (hnodup : (keys pairs).Nodup) :
    (ofList pairs).byName.Pairwise fun lower upper => lower.1 < upper.1 := by
  have hsorted := pairwise_mergeSort_key (·.1) pairs
  have hdistinct := nodup_keys_ofList hnodup
  exact (hsorted.and (List.pairwise_map.mp hdistinct)).imp fun ⟨hle, hne⟩ => lt_of_le_of_ne hle hne

theorem mem_level : name ∈ ranks.level rank ↔ (name, rank) ∈ ranks.byName := by
  simp [level]

theorem le_maxRank (hmem : (name, rank) ∈ ranks.byName) : rank ≤ ranks.maxRank := by
  have hrank : rank ∈ ranks.byName.map (·.2) := List.mem_map.mpr ⟨(name, rank), hmem, rfl⟩
  rw [maxRank, ← List.foldl_map, List.foldl_max]
  exact (List.le_max?_getD_of_mem hrank).trans (Nat.le_max_right 0 _)

/-- The highest rank is 0 or the rank of some name. -/
theorem maxRank_eq_zero_or (ranks : Ranks) :
    ranks.maxRank = 0 ∨ ∃ name, (name, ranks.maxRank) ∈ ranks.byName := by
  rw [maxRank, ← List.foldl_map, List.foldl_max]
  cases hmax : (ranks.byName.map (·.2)).max? with
  | none => exact .inl rfl
  | some highest =>
      obtain ⟨⟨name, rank⟩, hmem, rfl⟩ := List.mem_map.mp (List.max?_mem hmax)
      exact .inr ⟨name, by simpa using hmem⟩

/-- The ranks that occur, in ascending order. -/
def occurring (ranks : Ranks) : List Nat :=
  (List.range (ranks.maxRank + 1)).filter (ranks.level · ≠ [])

theorem mem_occurring : rank ∈ ranks.occurring ↔ ranks.level rank ≠ [] := by
  simp only [occurring, List.mem_filter, List.mem_range, decide_eq_true_eq, and_iff_right_iff_imp]
  intro hlevel
  obtain ⟨name, hname⟩ := List.exists_mem_of_ne_nil _ hlevel
  exact Nat.lt_succ_of_le (le_maxRank (mem_level.mp hname))

theorem pairwise_occurring (ranks : Ranks) : ranks.occurring.Pairwise (· < ·) :=
  List.pairwise_lt_range.filter _

theorem levels_eq (ranks : Ranks) :
    ranks.levels = ranks.occurring.map fun rank => (rank, ranks.level rank) := by
  rw [levels, occurring, List.filter_map]
  rfl

theorem mem_levels {names : List String} :
    (rank, names) ∈ ranks.levels ↔ names ≠ [] ∧ ranks.level rank = names := by
  rw [levels_eq, List.mem_map]
  constructor
  · intro ⟨occurs, hoccurs, heq⟩
    obtain ⟨rfl, rfl⟩ := Prod.mk.inj heq
    exact ⟨mem_occurring.mp hoccurs, rfl⟩
  · intro ⟨hne, heq⟩
    exact ⟨rank, mem_occurring.mpr (heq ▸ hne), heq ▸ rfl⟩

theorem pairwise_levels (ranks : Ranks) :
    ranks.levels.Pairwise fun lower upper => lower.1 < upper.1 := by
  rw [levels_eq]
  exact List.pairwise_map.mpr ranks.pairwise_occurring

/-- The highest rank does not depend on the order of the names. -/
theorem maxRank_of_perm {other : Ranks} (hperm : ranks.byName.Perm other.byName) :
    ranks.maxRank = other.maxRank := by
  have hcomm : RightCommutative fun (rank : Nat) (pair : String × Nat) => max rank pair.2 :=
    ⟨fun rank first second => Nat.max_right_comm rank first.2 second.2⟩
  exact hperm.foldl_eq 0

/-- A level ascends, as the list that it is taken from does. -/
theorem pairwise_level (hascending : ranks.byName.Pairwise fun lower upper => lower.1 < upper.1)
    (rank : Nat) : (ranks.level rank).Pairwise (· < ·) :=
  List.pairwise_map.mpr (hascending.filter _)

end Ranks

namespace Graph

variable {graph first second : Graph} {name : String} {rank : Nat}

theorem pairwise_byName (hgraph : graph.WellFormed) :
    graph.ranks.byName.Pairwise fun lower upper => lower.1 < upper.1 :=
  Ranks.pairwise_ofList (sound_rankWalk hgraph).settled.nodup

/-- The ranks of a graph are those of its nodes. -/
theorem mem_byName (hgraph : graph.WellFormed) :
    (name, rank) ∈ graph.ranks.byName ↔ name ∈ graph.names ∧ graph.rankOf name = rank := by
  have hnodup := (sound_rankWalk hgraph).settled.nodup
  rw [ranks, Ranks.mem_ofList, ← lookup_eq_some hnodup, ← mem_ranked_rankWalk hgraph]
  constructor
  · intro hrank
    exact ⟨mem_keys_of_lookup hrank, rankIn_of_lookup hrank⟩
  · rintro ⟨hname, rfl⟩
    obtain ⟨rank, hrank⟩ := exists_lookup hname
    rw [hrank, rankOf, rankIn_of_lookup hrank]

theorem mem_level (hgraph : graph.WellFormed) :
    name ∈ graph.ranks.level rank ↔ name ∈ graph.names ∧ graph.rankOf name = rank := by
  rw [Ranks.mem_level, mem_byName hgraph]

/-- The nodes are looked up in the ranks, and nothing else. -/
theorem rank?_eq_some_iff (hgraph : graph.WellFormed) :
    graph.ranks.rank? name = some rank ↔ name ∈ graph.names ∧ graph.rankOf name = rank := by
  have hnodup : (keys graph.ranks.byName).Nodup :=
    Ranks.nodup_keys_ofList (sound_rankWalk hgraph).settled.nodup
  rw [Ranks.rank?, lookup_eq_some hnodup, mem_byName hgraph]

/-- Graphs whose nodes have the same names and rank the same have the same ranks. -/
theorem ranks_congr (hfirst : first.WellFormed) (hsecond : second.WellFormed)
    (hnames : ∀ name, name ∈ first.names ↔ name ∈ second.names)
    (hrank : ∀ name ∈ first.names, first.rankOf name = second.rankOf name) :
    first.ranks = second.ranks := by
  have hpairs : first.ranks.byName = second.ranks.byName := by
    apply eq_of_ascending_keys (pairwise_byName hfirst) (pairwise_byName hsecond)
    intro name rank
    rw [mem_byName hfirst, mem_byName hsecond, ← hnames]
    exact and_congr_right fun hname => by rw [hrank name hname]
  exact congrArg Ranks.mk hpairs

end Graph

end OberonImports
