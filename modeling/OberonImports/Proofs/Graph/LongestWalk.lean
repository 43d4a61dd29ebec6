import Mathlib.Data.List.Basic
import OberonImports.Proofs.Graph.RankWalk

/-!
# Ranks as lengths of longest walks

Along an edge that is not broken the rank falls, and from a node above rank 0 some edge leads one
rank down. A node that leads to no cycle has no broken edge below it, so its rank is the length of
the longest walk from it, whatever cycles the walk in search of ranks breaks elsewhere.
-/

namespace OberonImports.Graph

variable {graph : Graph} {name source target : String}

/-- The longest walk from a name has so many edges, and some walk of this length visits no name
twice. -/
structure LongestFrom (graph : Graph) (name : String) (length : Nat) : Prop where
  attained : ∃ names, graph.IsWalk (name :: names) ∧ (name :: names).Nodup ∧ names.length = length
  bound : ∀ names, graph.IsWalk (name :: names) → names.length ≤ length

theorem AcyclicFrom.not_broken (hgraph : graph.WellFormed) (hacyclic : graph.AcyclicFrom source) :
    (source, target) ∉ graph.brokenEdges := by
  intro hbroken
  obtain ⟨hedge, hback⟩ := edge_of_mem_brokenEdges hgraph hbroken
  exact hacyclic source Reaches.refl (hedge.onCycle hback)

theorem AcyclicFrom.rankOf_lt (hgraph : graph.WellFormed) (hacyclic : graph.AcyclicFrom source)
    (hedge : graph.Edge source target) : graph.rankOf target < graph.rankOf source := by
  have hlt := behind_lt_rankOf hgraph hedge
  rwa [behind_of_kept (hacyclic.not_broken hgraph)] at hlt

theorem AcyclicFrom.exists_edge_down (hgraph : graph.WellFormed) (hacyclic : graph.AcyclicFrom name)
    (hname : name ∈ graph.names) {height : Nat} (hrank : graph.rankOf name = height + 1) :
    ∃ target, graph.Edge name target ∧ graph.rankOf target = height := by
  obtain ⟨target, hedge, hbehind⟩ := exists_edge_of_rankOf_eq_succ hgraph hname hrank
  rw [behind_of_kept (hacyclic.not_broken hgraph)] at hbehind
  exact ⟨target, hedge, hbehind⟩

theorem AcyclicFrom.length_le_rankOf (hgraph : graph.WellFormed)
    (hacyclic : graph.AcyclicFrom name) {names : List String}
    (hwalk : graph.IsWalk (name :: names)) : names.length ≤ graph.rankOf name := by
  induction names generalizing name with
  | nil => exact Nat.zero_le _
  | cons next names ih =>
      obtain ⟨hedge, hrest⟩ := List.isChain_cons_cons.mp hwalk
      have hfall := hacyclic.rankOf_lt hgraph hedge
      have hlength := ih (hacyclic.of_edge hedge) hrest
      rw [List.length_cons]
      omega

theorem AcyclicFrom.exists_walk (hgraph : graph.WellFormed) (hacyclic : graph.AcyclicFrom name)
    (hname : name ∈ graph.names) :
    ∃ names, graph.IsWalk (name :: names) ∧ names.length = graph.rankOf name := by
  generalize hrank : graph.rankOf name = rank
  induction rank generalizing name with
  | zero => exact ⟨[], List.isChain_singleton name, rfl⟩
  | succ height ih =>
      obtain ⟨next, hedge, hnext⟩ := hacyclic.exists_edge_down hgraph hname hrank
      have hnode := hgraph.target_mem _ hedge
      obtain ⟨names, hwalk, hlength⟩ := ih (hacyclic.of_edge hedge) hnode hnext
      exact ⟨next :: names, List.isChain_cons_cons.mpr ⟨hedge, hwalk⟩, by simp [hlength]⟩

theorem AcyclicFrom.longestFrom_rankOf (hgraph : graph.WellFormed)
    (hacyclic : graph.AcyclicFrom name) (hname : name ∈ graph.names) :
    graph.LongestFrom name (graph.rankOf name) where
  attained := by
    obtain ⟨names, hwalk, hlength⟩ := hacyclic.exists_walk hgraph hname
    exact ⟨names, hwalk, hwalk.nodup hacyclic, hlength⟩
  bound := fun _ hwalk => hacyclic.length_le_rankOf hgraph hwalk

/-- A node that leads to no cycle has the length of the longest walk from it as its rank, though
there may be cycles elsewhere. In a graph without cycles all ranks are such lengths. -/
theorem rank?_eq_length_of_longest_walk (hgraph : graph.WellFormed) :
    (∀ name ∈ graph.names, graph.AcyclicFrom name →
      ∃ rank, graph.ranks.rank? name = some rank ∧ graph.LongestFrom name rank) ∧
    (graph.Acyclic → ∀ name ∈ graph.names,
      ∃ rank, graph.ranks.rank? name = some rank ∧ graph.LongestFrom name rank) := by
  have hlongest : ∀ name ∈ graph.names, graph.AcyclicFrom name →
      ∃ rank, graph.ranks.rank? name = some rank ∧ graph.LongestFrom name rank :=
    fun name hname hacyclic => ⟨graph.rankOf name, rank?_ranks hgraph hname,
      hacyclic.longestFrom_rankOf hgraph hname⟩
  exact ⟨hlongest, fun hacyclic name hname => hlongest name hname (hacyclic.acyclicFrom name)⟩

/-- Two ways lead from `M` to `D`. The walk for ranks starts in the cycle of `B` and `C`, which
leads to `M`. -/
def besideCycle : Graph where
  nodes := ["M", "T", "D", "B", "C"].map (⟨·, false⟩)
  edges := [("M", "D"), ("M", "T"), ("T", "D"), ("B", "C"), ("C", "B"), ("C", "M")]

/-- Two ways lead from `M` to `D`, and parallel edges from `M` to `T`. -/
def unevenDiamond : Graph where
  nodes := ["M", "T", "D"].map (⟨·, false⟩)
  edges := [("M", "D"), ("M", "T"), ("M", "T"), ("T", "D")]

theorem rank?_besideCycle_unevenDiamond :
    (besideCycle.WellFormed ∧ besideCycle.OnCycle "C" ∧ besideCycle.AcyclicFrom "M" ∧
      besideCycle.ranks.rank? "M" = some 2 ∧ besideCycle.LongestFrom "M" 2) ∧
    (unevenDiamond.WellFormed ∧ unevenDiamond.Acyclic ∧
      unevenDiamond.ranks.rank? "M" = some 2 ∧ unevenDiamond.LongestFrom "M" 2) := by
  constructor
  · have hgraph : besideCycle.WellFormed := ⟨by decide, by decide, by decide⟩
    have hforth : besideCycle.Edge "C" "B" := by decide
    have hback : besideCycle.Edge "B" "C" := by decide
    have hacyclic : besideCycle.AcyclicFrom "M" :=
      .of_height ["D", "T", "M"].idxOf (by decide) (show "M" ∈ ["D", "T", "M"] by decide)
    have htwo : besideCycle.ranks.rank? "M" = some 2 := by
      simp +decide [besideCycle, ranks, Ranks.ofList, Ranks.rank?, rankWalk, names, successors,
        RankWalk.visit, RankWalk.follow, RankWalk.start, RankWalk.finish, List.lookup_cons,
        List.mergeSort, List.MergeSort.Internal.splitInTwo]
    obtain ⟨rank, hrank, hlongest⟩ :=
      (rank?_eq_length_of_longest_walk hgraph).1 "M" (by decide) hacyclic
    obtain rfl : rank = 2 := Option.some.inj (hrank.symm.trans htwo)
    exact ⟨hgraph, hforth.onCycle hback.reaches, hacyclic, hrank, hlongest⟩
  · have hgraph : unevenDiamond.WellFormed := ⟨by decide, by decide, by decide⟩
    have hacyclic : unevenDiamond.Acyclic := .of_height hgraph ["D", "T", "M"].idxOf (by decide)
    have htwo : unevenDiamond.ranks.rank? "M" = some 2 := by
      simp +decide [unevenDiamond, ranks, Ranks.ofList, Ranks.rank?, rankWalk, names, successors,
        RankWalk.visit, RankWalk.follow, RankWalk.start, RankWalk.finish, List.lookup_cons,
        List.mergeSort, List.MergeSort.Internal.splitInTwo]
    obtain ⟨rank, hrank, hlongest⟩ :=
      (rank?_eq_length_of_longest_walk hgraph).2 hacyclic "M" (by decide)
    obtain rfl : rank = 2 := Option.some.inj (hrank.symm.trans htwo)
    exact ⟨hgraph, hacyclic, hrank, hlongest⟩

end OberonImports.Graph
