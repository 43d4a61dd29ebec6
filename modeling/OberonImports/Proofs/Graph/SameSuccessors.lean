import OberonImports.Proofs.Graph.Cycles
import OberonImports.Proofs.Graph.Drain

/-!
# Graphs with the same successors

Searches follow the edges of a node in their order and start from nodes in ascending order of names.
So it makes no difference in which order the nodes of a graph were added, nor how the edges of
different nodes come between each other: the walks in search of ranks run in lock step, whatever
cycles there are.
-/

namespace OberonImports.Graph

variable {first second : Graph}

/-- The nodes of two graphs have the same names, and each name leads to the same names in the same
order, parallel edges included. -/
structure SameSuccessors (first second : Graph) : Prop where
  mem_names : ∀ name, name ∈ first.names ↔ name ∈ second.names
  successors : ∀ name ∈ first.names, first.successors name = second.successors name

/-- What is no node leads nowhere. -/
theorem WellFormed.successors_eq_nil {graph : Graph} {name : String} (hgraph : graph.WellFormed)
    (hname : name ∉ graph.names) : graph.successors name = [] := by
  apply List.eq_nil_iff_forall_not_mem.mpr
  intro target htarget
  exact hname (hgraph.source_mem _ (mem_successors.mp htarget))

namespace RankWalk

variable {fresh others targets : List String} {source : String} {deepest : Option Nat}
  {walk : RankWalk}

/-- Where successors are the same, following edges does the same on the same path. -/
theorem follow_congr (hsuccessors : first.successors = second.successors)
    (hfresh : fresh.Perm others) :
    follow first fresh source targets deepest walk =
      follow second others source targets deepest walk := by
  fun_induction follow first fresh source targets deepest walk generalizing others with
  | case1 => rw [follow_nil]
  | case2 fresh source target targets deepest walk rank hlookup ih =>
      rw [follow_of_ranked hlookup]
      exact ih hfresh
  | case3 fresh source target targets deepest walk hlookup hmem behind inner hfollow ihInner
      ihRest =>
      have hinner := ihInner (hfresh.erase target)
      rw [hfollow, hsuccessors] at hinner
      rw [follow_of_new hlookup (hfresh.mem_iff.mp hmem) hinner.symm]
      exact ihRest hfresh
  | case4 fresh source target targets deepest walk hlookup hopen ih =>
      rw [follow_of_open hlookup fun hmem => hopen (hfresh.mem_iff.mpr hmem)]
      exact ih hfresh

theorem visit_congr (hsuccessors : first.successors = second.successors)
    (hnames : first.names.Perm second.names) : visit first = visit second := by
  funext walk root
  rw [visit, visit, follow_congr hsuccessors (hnames.erase root), hsuccessors]

end RankWalk

namespace SameSuccessors

theorem successors_eq (hsame : SameSuccessors first second) (hfirst : first.WellFormed)
    (hsecond : second.WellFormed) : first.successors = second.successors := by
  funext name
  by_cases hname : name ∈ first.names
  · exact hsame.successors name hname
  · have hother : name ∉ second.names := fun hmem => hname ((hsame.mem_names name).mpr hmem)
    rw [hfirst.successors_eq_nil hname, hsecond.successors_eq_nil hother]

theorem perm_names (hsame : SameSuccessors first second) (hfirst : first.WellFormed)
    (hsecond : second.WellFormed) : first.names.Perm second.names :=
  (List.perm_ext_iff_of_nodup hfirst.nodup hsecond.nodup).mpr hsame.mem_names

/-- The walks rank the same nodes in the same order and break the same edges. -/
theorem rankWalk_eq (hsame : SameSuccessors first second) (hfirst : first.WellFormed)
    (hsecond : second.WellFormed) : first.rankWalk = second.rankWalk := by
  have hnames := hsame.perm_names hfirst hsecond
  rw [rankWalk, rankWalk, RankWalk.visit_congr (hsame.successors_eq hfirst hsecond) hnames,
    mergeSort_of_perm hnames]

theorem edge_eq (hsame : SameSuccessors first second) (hfirst : first.WellFormed)
    (hsecond : second.WellFormed) : first.Edge = second.Edge := by
  funext source target
  rw [← propext mem_successors, ← propext mem_successors, hsame.successors_eq hfirst hsecond]

end SameSuccessors

/-- Two graphs whose nodes have the same names, each with the same successors in the same order,
have the same ranks and the same cycles, in whatever order the nodes were added and however the
edges of different nodes were interleaved, cycles or not. The tables of ranks may be filled in any
order. -/
theorem ranks_and_cycles_of_sameSuccessors (hfirst : first.WellFormed) (hsecond : second.WellFormed)
    (hsame : SameSuccessors first second) :
    first.ranks = second.ranks ∧ first.cycles = second.cycles ∧
    ∀ graph ∈ [first, second], ∀ drained : List (String × Nat),
      drained.Perm graph.rankWalk.ranks → (RankTables.drain drained).contents =
        (first.ranks.byName, first.ranks.levels, first.ranks.maxRank) := by
  have hwalk := hsame.rankWalk_eq hfirst hsecond
  refine ⟨by rw [ranks, hwalk, ranks], ?_, ?_⟩
  · apply cycles_congr hfirst hsecond
    intro name other
    rw [hsame.edge_eq hfirst hsecond]
  · intro graph hgraph drained hperm
    have hsearch : graph.rankWalk = first.rankWalk := by
      rcases List.mem_pair.mp hgraph with rfl | rfl
      · rfl
      · exact hwalk.symm
    rw [hsearch] at hperm
    exact RankTables.contents_drain (sound_rankWalk hfirst).settled.nodup hperm

/-- Modules that import each other, one of them another one twice. -/
def addedInOrder : Graph where
  nodes := ["A", "B", "C", "D"].map (⟨·, false⟩)
  edges := [("A", "B"), ("A", "C"), ("A", "C"), ("B", "A"), ("C", "B"), ("C", "D")]

/-- The same modules in another order, with their imports interleaved. -/
def addedInDisorder : Graph where
  nodes := ["D", "B", "C", "A"].map (⟨·, false⟩)
  edges := [("C", "B"), ("A", "B"), ("B", "A"), ("A", "C"), ("C", "D"), ("A", "C")]

theorem ranks_addedInDisorder : addedInOrder.WellFormed ∧ addedInDisorder.WellFormed ∧
    SameSuccessors addedInOrder addedInDisorder ∧
    addedInDisorder.ranks.byName = [("A", 3), ("B", 1), ("C", 2), ("D", 0)] ∧
    addedInDisorder.cycles = [["A", "B", "C"]] ∧
    (RankTables.drain [("D", 0), ("A", 3), ("C", 2), ("B", 1)]).contents =
      ([("A", 3), ("B", 1), ("C", 2), ("D", 0)],
        [(0, ["D"]), (1, ["B"]), (2, ["C"]), (3, ["A"])], 3) := by
  have hordered : addedInOrder.WellFormed := ⟨by decide, by decide, by decide⟩
  have hdisordered : addedInDisorder.WellFormed := ⟨by decide, by decide, by decide⟩
  have hsame : SameSuccessors addedInOrder addedInDisorder :=
    ⟨fun name => by simp [names, addedInOrder, addedInDisorder]; tauto, by decide⟩
  obtain ⟨hranks, hcycles, hdrain⟩ := ranks_and_cycles_of_sameSuccessors hordered hdisordered hsame
  have hordered_ranks : addedInOrder.ranks = ⟨[("A", 3), ("B", 1), ("C", 2), ("D", 0)]⟩ := by
    simp +decide [addedInOrder, ranks, Ranks.ofList, rankWalk, names, successors, RankWalk.visit,
      RankWalk.follow, RankWalk.start, RankWalk.finish, List.lookup_cons, List.mergeSort,
      List.MergeSort.Internal.splitInTwo]
  have hordered_cycles : addedInOrder.cycles = [["A", "B", "C"]] := by
    simp +decide [addedInOrder, cycles, components, isCyclic, hasEdge, names, successors,
      Search.visit, Search.follow, Search.start, Search.discover, Search.next, Search.finish,
      Search.close, List.lookup_cons, List.filter_cons, List.mergeSort,
      List.MergeSort.Internal.splitInTwo]
  have hwalk : addedInDisorder.rankWalk.ranks = [("A", 3), ("C", 2), ("D", 0), ("B", 1)] := by
    simp +decide [addedInDisorder, rankWalk, names, successors, RankWalk.visit, RankWalk.follow,
      RankWalk.start, RankWalk.finish, List.lookup_cons, List.mergeSort,
      List.MergeSort.Internal.splitInTwo]
  have hcontents := hdrain addedInDisorder (by simp) [("D", 0), ("A", 3), ("C", 2), ("B", 1)]
    (by rw [hwalk]; decide)
  rw [hordered_ranks] at hranks hcontents
  rw [hordered_cycles] at hcycles
  exact ⟨hordered, hdisordered, hsame, by rw [← hranks], hcycles.symm, hcontents.trans (by decide)⟩

end OberonImports.Graph
