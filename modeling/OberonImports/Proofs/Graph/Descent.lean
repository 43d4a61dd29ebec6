import OberonImports.Proofs.Graph.LongestWalk
import OberonImports.Proofs.Graph.RankTable
import OberonImports.Proofs.Graph.WalkSteps

/-!
# Walks down the ranks

From a node above rank 1 some edge leads to a node one rank lower, broken edges or not, since a
broken edge adds nothing. So a walk leads down to rank 1 through all ranks on the way. No rank is
skipped, and there are no more ranks above 0 than nodes. In a graph without cycles the walk goes on
to rank 0.
-/

namespace OberonImports.Graph

variable {graph : Graph} {name target : String} {rank height : Nat} {nodes : List String}

/-- What an edge adds if it adds something is the rank of its target. -/
theorem eq_of_behind_eq_succ {broken : List (String × String)} {ranks : String → Nat}
    (hbehind : behind broken ranks name target = height + 1) : ranks target = height + 1 := by
  unfold behind at hbehind
  split at hbehind
  next => cases hbehind
  next => exact hbehind

theorem rankOf_eq_zero_iff (hgraph : graph.WellFormed) (hname : name ∈ graph.names) :
    graph.rankOf name = 0 ↔ ∀ target, ¬ graph.Edge name target := by
  constructor
  · intro hzero target hedge
    have hlt := behind_lt_rankOf hgraph hedge
    omega
  · intro hnone
    cases hrank : graph.rankOf name with
    | zero => rfl
    | succ height =>
        obtain ⟨target, hedge, -⟩ := exists_edge_of_rankOf_eq_succ hgraph hname hrank
        exact absurd hedge (hnone target)

/-- From a node above rank 0 a walk leads down to rank 1, rank by rank. -/
theorem exists_descent (hgraph : graph.WellFormed) (hname : name ∈ graph.names)
    (hrank : graph.rankOf name = height + 1) :
    ∃ nodes, graph.IsWalk (name :: nodes) ∧
      (name :: nodes).map graph.rankOf = (List.range' 1 (height + 1)).reverse := by
  induction height generalizing name with
  | zero => exact ⟨[], List.isChain_singleton name, by simp [hrank]⟩
  | succ height ih =>
      obtain ⟨next, hedge, hbehind⟩ := exists_edge_of_rankOf_eq_succ hgraph hname hrank
      obtain ⟨nodes, hwalk, hranks⟩ :=
        ih (hgraph.target_mem _ hedge) (eq_of_behind_eq_succ hbehind)
      have hdown : List.range' 1 (height + 2) = List.range' 1 (height + 1) ++ [height + 2] := by
        rw [List.range'_1_concat, Nat.add_comm 1 (height + 1)]
      refine ⟨next :: nodes, List.isChain_cons_cons.mpr ⟨hedge, hwalk⟩, ?_⟩
      rw [List.map_cons, hranks, hrank, hdown, List.reverse_concat]

theorem IsWalk.mem_names (hgraph : graph.WellFormed) (hname : name ∈ graph.names)
    (hwalk : graph.IsWalk (name :: nodes)) : ∀ node ∈ name :: nodes, node ∈ graph.names := by
  induction nodes generalizing name with
  | nil => simpa using hname
  | cons next nodes ih =>
      obtain ⟨hedge, hrest⟩ := List.isChain_cons_cons.mp hwalk
      exact List.forall_mem_cons.mpr ⟨hname, ih (hgraph.target_mem _ hedge) hrest⟩

/-- Nodes that differ are no more than the nodes of the graph. -/
theorem length_le_of_nodup (hnodup : nodes.Nodup) (hnames : ∀ node ∈ nodes, node ∈ graph.names) :
    nodes.length ≤ graph.nodes.length := by
  have hlength := (hnodup.subperm hnames).length_le
  rwa [names, List.length_map] at hlength

/-- The descending ranks of a walk differ, and so do its nodes. -/
theorem nodup_of_map_rankOf (hranks : nodes.map graph.rankOf = (List.range' 1 rank).reverse) :
    nodes.Nodup := by
  apply List.Nodup.of_map graph.rankOf
  rw [hranks, List.nodup_reverse]
  exact List.nodup_range'

/-- A node ranks no higher than there are nodes. -/
theorem rankOf_le_length (hgraph : graph.WellFormed) (hname : name ∈ graph.names) :
    graph.rankOf name ≤ graph.nodes.length := by
  cases hrank : graph.rankOf name with
  | zero => exact Nat.zero_le _
  | succ height =>
      obtain ⟨nodes, hwalk, hranks⟩ := exists_descent hgraph hname hrank
      have hlength := congrArg List.length hranks
      rw [List.length_map, List.length_reverse, List.length_range'] at hlength
      rw [← hlength]
      exact length_le_of_nodup (nodup_of_map_rankOf hranks) (hwalk.mem_names hgraph hname)

/-- The highest rank is 0 or the rank of some node. -/
theorem maxRank_eq_zero_or (hgraph : graph.WellFormed) :
    graph.ranks.maxRank = 0 ∨ ∃ name ∈ graph.names, graph.rankOf name = graph.ranks.maxRank :=
  graph.ranks.maxRank_eq_zero_or.imp_right fun ⟨name, hname⟩ =>
    ⟨name, (mem_byName hgraph).mp hname⟩

theorem maxRank_le_length (hgraph : graph.WellFormed) :
    graph.ranks.maxRank ≤ graph.nodes.length := by
  rcases maxRank_eq_zero_or hgraph with hzero | ⟨name, hname, hrank⟩
  · exact hzero ▸ Nat.zero_le _
  · exact hrank ▸ rankOf_le_length hgraph hname

/-- Without cycles, a walk of as many edges as the rank visits one node more. -/
theorem maxRank_lt_length (hgraph : graph.WellFormed) (hacyclic : graph.Acyclic)
    (hne : graph.nodes ≠ []) : graph.ranks.maxRank < graph.nodes.length := by
  rcases maxRank_eq_zero_or hgraph with hzero | ⟨name, hname, hrank⟩
  · exact hzero ▸ List.length_pos_iff.mpr hne
  · obtain ⟨nodes, hwalk, hlength⟩ := (hacyclic.acyclicFrom name).exists_walk hgraph hname
    have hbound := length_le_of_nodup (hwalk.nodup (hacyclic.acyclicFrom name))
      (hwalk.mem_names hgraph hname)
    rw [List.length_cons, hlength, hrank] at hbound
    exact hbound

/-- No rank between 1 and the highest is skipped. -/
theorem level_ne_nil (hgraph : graph.WellFormed) (hpos : 1 ≤ rank)
    (hle : rank ≤ graph.ranks.maxRank) : graph.ranks.level rank ≠ [] := by
  obtain ⟨height, hheight⟩ : ∃ height, graph.ranks.maxRank = height + 1 :=
    Nat.exists_eq_add_of_le' (hpos.trans hle)
  obtain ⟨name, hname, hrank⟩ := (maxRank_eq_zero_or hgraph).resolve_left (by omega)
  -- A walk down from the highest rank passes through the level.
  obtain ⟨nodes, hwalk, hranks⟩ := exists_descent hgraph hname (hrank.trans hheight)
  have hpassed : rank ∈ (name :: nodes).map graph.rankOf := by
    rw [hranks, List.mem_reverse, List.mem_range'_1]
    omega
  obtain ⟨node, hnode, hat⟩ := List.mem_map.mp hpassed
  exact List.ne_nil_of_mem
    ((mem_level hgraph).mpr ⟨hwalk.mem_names hgraph hname node hnode, hat⟩)

theorem level_zero_eq_nil_iff (hgraph : graph.WellFormed) :
    graph.ranks.level 0 = [] ↔ ∀ name ∈ graph.names, ∃ target, graph.Edge name target := by
  rw [List.eq_nil_iff_forall_not_mem]
  constructor
  · intro hnone name hname
    by_contra hleaf
    exact hnone name ((mem_level hgraph).mpr
      ⟨hname, (rankOf_eq_zero_iff hgraph hname).mpr (not_exists.mp hleaf)⟩)
  · intro hall name hname
    obtain ⟨hnode, hzero⟩ := (mem_level hgraph).mp hname
    obtain ⟨target, hedge⟩ := hall name hnode
    exact (rankOf_eq_zero_iff hgraph hnode).mp hzero target hedge

/-- A node has rank 0 exactly if no edge leads from it. From a node of a higher rank a walk of nodes
that differ leads down to rank 1 and through all ranks on the way, whatever cycles there are. So the
walk for ranks, which ends after a step for each edge and two for each node, ranks no node higher
than there are nodes, and lower still in a graph with nodes and without cycles. Each level from 1 to
the highest rank has nodes, and level 0 has none only if an edge leads from each node. -/
theorem ranks_descend (hgraph : graph.WellFormed) :
    (∀ name ∈ graph.names,
      graph.ranks.rank? name = some 0 ↔ ∀ target, ¬ graph.Edge name target) ∧
    (∀ name rank, 1 ≤ rank → graph.ranks.rank? name = some rank →
      ∃ nodes : List String, nodes.head? = some name ∧ nodes.Nodup ∧ graph.IsWalk nodes ∧
        nodes.map graph.ranks.rank? = (List.range' 1 rank).reverse.map some) ∧
    (walkStep graph)^[graph.edges.length + 2 * graph.nodes.length] graph.walkStart =
      ⟨[], [], [], graph.rankWalk⟩ ∧
    graph.ranks.maxRank ≤ graph.nodes.length ∧
    (graph.Acyclic → graph.nodes ≠ [] → graph.ranks.maxRank < graph.nodes.length) ∧
    (∀ rank, 1 ≤ rank → rank ≤ graph.ranks.maxRank → graph.ranks.level rank ≠ []) ∧
    (graph.ranks.level 0 = [] ↔ ∀ name ∈ graph.names, ∃ target, graph.Edge name target) := by
  refine ⟨?_, ?_, takes_rankWalk hgraph, maxRank_le_length hgraph,
    maxRank_lt_length hgraph, fun _ => level_ne_nil hgraph, level_zero_eq_nil_iff hgraph⟩
  · intro name hname
    rw [rank?_eq_some_iff hgraph, rankOf_eq_zero_iff hgraph hname]
    exact and_iff_right hname
  · intro name rank hpos hrank
    obtain ⟨hname, hrank⟩ := (rank?_eq_some_iff hgraph).mp hrank
    obtain ⟨height, rfl⟩ := Nat.exists_eq_add_of_le' hpos
    obtain ⟨nodes, hwalk, hranks⟩ := exists_descent hgraph hname hrank
    refine ⟨name :: nodes, rfl, nodup_of_map_rankOf hranks, hwalk, ?_⟩
    rw [← hranks, List.map_map]
    exact List.map_congr_left fun node hnode =>
      rank?_ranks hgraph (hwalk.mem_names hgraph hname node hnode)

/-- Three modules that import each other in a ring, one of them also itself. -/
def ring : Graph where
  nodes := ["C", "A", "B"].map (⟨·, false⟩)
  edges := [("A", "B"), ("B", "C"), ("C", "C"), ("C", "A")]

/-- In the ring the highest rank is the number of nodes, and no node has rank 0. -/
theorem ranks_ring :
    (ring.WellFormed ∧ ring.ranks.rank? "A" = some 3 ∧
      (∃ nodes : List String, nodes.head? = some "A" ∧ nodes.Nodup ∧ ring.IsWalk nodes ∧
        nodes.map ring.ranks.rank? = [some 3, some 2, some 1]) ∧
      (walkStep ring)^[10] ring.walkStart = ⟨[], [], [], ring.rankWalk⟩ ∧
      ring.ranks.level 0 = [] ∧ ring.ranks.maxRank = 3 ∧ ring.ranks.level 2 ≠ []) ∧
    unevenDiamond.WellFormed ∧ unevenDiamond.Acyclic ∧ unevenDiamond.ranks.maxRank < 3 := by
  constructor
  · have hgraph : ring.WellFormed := ⟨by decide, by decide, by decide⟩
    obtain ⟨-, hdescent, hsteps, -, -, hlevels, hnone⟩ := ranks_descend hgraph
    have hranks : ring.ranks = ⟨[("A", 3), ("B", 2), ("C", 1)]⟩ := by
      simp +decide [ring, ranks, Ranks.ofList, rankWalk, names, successors, RankWalk.visit,
        RankWalk.follow, RankWalk.start, RankWalk.finish, List.lookup_cons, List.mergeSort,
        List.MergeSort.Internal.splitInTwo]
    have hthree : ring.ranks.rank? "A" = some 3 := by
      rw [hranks]
      decide
    have hmax : ring.ranks.maxRank = 3 := by
      rw [hranks]
      decide
    refine ⟨hgraph, hthree, hdescent "A" 3 (by decide) hthree, hsteps, ?_, hmax,
      hlevels 2 (by decide) (by rw [hmax]; decide)⟩
    refine hnone.mpr fun name hname => ?_
    have hedges : ∀ name ∈ ring.names, ring.successors name ≠ [] := by decide
    obtain ⟨target, htarget⟩ := List.exists_mem_of_ne_nil _ (hedges name hname)
    exact ⟨target, mem_successors.mp htarget⟩
  · have hgraph : unevenDiamond.WellFormed := ⟨by decide, by decide, by decide⟩
    have hacyclic : unevenDiamond.Acyclic := .of_height hgraph ["D", "T", "M"].idxOf (by decide)
    obtain ⟨-, -, -, -, hbound, -⟩ := ranks_descend hgraph
    exact ⟨hgraph, hacyclic, hbound hacyclic (by decide)⟩

end OberonImports.Graph
