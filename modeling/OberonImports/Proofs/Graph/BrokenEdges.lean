import OberonImports.Proofs.Graph.Cycles
import OberonImports.Proofs.Graph.RankWalk

/-!
# Broken edges and cycles

The walk in search of ranks and the search for components agree on the cycles of a graph: the edges
that the walk breaks lie in the cycles, each cycle has one of them, and without them the graph has
no cycle. Ranks in a graph with cycles are what the edges give, with the broken ones adding nothing.
-/

namespace OberonImports.Graph

open Relation

variable {graph : Graph} {source target : String}

/-- A walk of at least one edge avoids some edges or passes through one of them. -/
theorem transGen_without_or {edges : List (String × String)}
    (hwalk : TransGen graph.Edge source target) :
    TransGen (graph.without edges).Edge source target ∨
      ∃ edge ∈ edges, graph.Edge edge.1 edge.2 ∧ graph.Reaches source edge.1 ∧
        graph.Reaches edge.2 target := by
  induction hwalk with
  | @single next hedge =>
      by_cases hmem : (source, next) ∈ edges
      · exact .inr ⟨_, hmem, hedge, Reaches.refl, Reaches.refl⟩
      · exact .inl (.single (edge_without.mpr ⟨hedge, hmem⟩))
  | @tail middle next hwalk hedge ih =>
      by_cases hmem : (middle, next) ∈ edges
      · exact .inr ⟨_, hmem, hedge, hwalk.to_reflTransGen, Reaches.refl⟩
      · rcases ih with havoids | ⟨edge, hin, hpasses, hforth, hback⟩
        · exact .inl (havoids.tail (edge_without.mpr ⟨hedge, hmem⟩))
        · exact .inr ⟨edge, hin, hpasses, hforth, hback.trans hedge.reaches⟩

theorem acyclic_without_brokenEdges (hgraph : graph.WellFormed) :
    (graph.without graph.brokenEdges).Acyclic := by
  have hsame : graph.without graph.brokenEdges = graph.without graph.rankWalk.broken := by
    simp [without, List.removeAll, mem_brokenEdges]
  rw [hsame]
  exact (sound_rankWalk hgraph).settled.acyclic fun edge hedge =>
    (mem_ranked_rankWalk hgraph).mpr (hgraph.source_mem edge hedge)

/-- Both ends of a broken edge lie in one cycle. -/
theorem exists_cycle_of_mem_brokenEdges (hgraph : graph.WellFormed) {edge : String × String}
    (hbroken : edge ∈ graph.brokenEdges) :
    ∃ cycle ∈ graph.cycles, edge.1 ∈ cycle ∧ edge.2 ∈ cycle := by
  obtain ⟨hedge, hback⟩ := edge_of_mem_brokenEdges hgraph hbroken
  exact (exists_mem_cycles_iff hgraph).mpr
    ⟨TransGen.single hedge, TransGen.tail' hback hedge |>.trans_left hback⟩

/-- Each cycle has a broken edge. -/
theorem exists_mem_brokenEdges_of_cycle (hgraph : graph.WellFormed) {cycle : List String}
    (hcycle : cycle ∈ graph.cycles) :
    ∃ edge ∈ graph.brokenEdges, edge.1 ∈ cycle ∧ edge.2 ∈ cycle := by
  obtain ⟨name, hname⟩ := exists_mem_cycle hgraph hcycle
  have hclosed := (exists_mem_cycles_iff_onCycle hgraph).mp ⟨cycle, hcycle, hname⟩
  -- The closed walk passes through a broken edge, as no cycle is left without them.
  obtain ⟨edge, hbroken, hedge, hforth, hback⟩ :=
    (transGen_without_or hclosed).resolve_left (acyclic_without_brokenEdges hgraph name)
  have hmem : ∀ other, other ∈ cycle ↔ graph.Reaches name other ∧ graph.Reaches other name :=
    fun _ => mem_cycle_iff hgraph hcycle hname
  exact ⟨edge, hbroken, (hmem edge.1).mpr ⟨hforth, hedge.reaches.trans hback⟩,
    (hmem edge.2).mpr ⟨hforth.trans hedge.reaches, hback⟩⟩

/-- The broken edges lie in the cycles, each cycle has one, and nothing is broken exactly if there
are no cycles. Without the broken edges the graph has no cycle. Each node has rank 0 if it has no
edge, else one more than the most that an edge adds: the rank of its target, or nothing if it is
broken. -/
theorem brokenEdges_cut_cycles (hgraph : graph.WellFormed) :
    (∀ edge ∈ graph.brokenEdges, edge ∈ graph.edges ∧
      ∃ cycle ∈ graph.cycles, edge.1 ∈ cycle ∧ edge.2 ∈ cycle) ∧
    (∀ cycle ∈ graph.cycles, ∃ edge ∈ graph.brokenEdges, edge.1 ∈ cycle ∧ edge.2 ∈ cycle) ∧
    (graph.brokenEdges = [] ↔ graph.cycles = []) ∧
    (graph.without graph.brokenEdges).Acyclic ∧
    ∃ rank : String → Nat, ∀ name ∈ graph.names, graph.ranks.rank? name = some (rank name) ∧
      rank name = graph.rankOver graph.brokenEdges rank name := by
  refine ⟨fun edge hbroken => ⟨(edge_of_mem_brokenEdges hgraph hbroken).1,
    exists_cycle_of_mem_brokenEdges hgraph hbroken⟩,
    fun cycle hcycle => exists_mem_brokenEdges_of_cycle hgraph hcycle, ⟨?_, ?_⟩,
    acyclic_without_brokenEdges hgraph, graph.rankOf,
    fun name hname => ⟨rank?_ranks hgraph hname, rankOf_eq hgraph hname⟩⟩
  · intro hnone
    apply List.eq_nil_iff_forall_not_mem.mpr
    intro cycle hcycle
    obtain ⟨edge, hbroken, _⟩ := exists_mem_brokenEdges_of_cycle hgraph hcycle
    simp [hnone] at hbroken
  · intro hnone
    apply List.eq_nil_iff_forall_not_mem.mpr
    intro edge hbroken
    obtain ⟨cycle, hcycle, _⟩ := exists_cycle_of_mem_brokenEdges hgraph hbroken
    simp [hnone] at hcycle

theorem brokenEdges_twoCycles : twoCycles.WellFormed ∧
    twoCycles.brokenEdges = [("S", "S"), ("T", "F")] ∧
    (twoCycles.without [("S", "S"), ("T", "F")]).Acyclic ∧
    ∃ cycle ∈ twoCycles.cycles, "T" ∈ cycle ∧ "F" ∈ cycle := by
  have hgraph : twoCycles.WellFormed := ⟨by decide, by decide, by decide⟩
  have hbroken : twoCycles.brokenEdges = [("S", "S"), ("T", "F")] := by
    simp +decide [twoCycles, brokenEdges, rankWalk, names, successors, RankWalk.visit,
      RankWalk.follow, RankWalk.start, RankWalk.finish, List.lookup_cons, List.mergeSort,
      List.MergeSort.Internal.splitInTwo]
  obtain ⟨hinside, -, -, hacyclic, -⟩ := brokenEdges_cut_cycles hgraph
  rw [hbroken] at hinside hacyclic
  exact ⟨hgraph, hbroken, hacyclic, (hinside ("T", "F") (by decide)).2⟩

end OberonImports.Graph
