import OberonImports.Proofs.Graph.Cycles
import OberonImports.Proofs.Graph.LongestWalk
import OberonImports.Proofs.Graph.RankTable

/-!
# Graphs with the same edges in different orders

Searches follow the edges of a node in their order. What they find does not depend on it where it
can be told without the order: cycles are classes of names, and the rank of a node that leads to no
cycle is the length of the longest walk from it.
-/

namespace OberonImports.Graph

variable {graph first second : Graph} {name : String} {rank length : Nat}

/-- The longest walks from a name have one length. -/
theorem LongestFrom.unique (hrank : graph.LongestFrom name rank)
    (hlength : graph.LongestFrom name length) : rank = length := by
  obtain ⟨names, hwalk, -, rfl⟩ := hrank.attained
  obtain ⟨others, hother, -, rfl⟩ := hlength.attained
  exact Nat.le_antisymm (hlength.bound names hwalk) (hrank.bound others hother)

/-- Two graphs have the same nodes in the same order, and edges between the same names. -/
structure SameEdges (first second : Graph) : Prop where
  nodes : first.nodes = second.nodes
  edge : ∀ source target, first.Edge source target ↔ second.Edge source target

namespace SameEdges

theorem names (hsame : SameEdges first second) : first.names = second.names := by
  rw [Graph.names, hsame.nodes, Graph.names]

theorem edge_eq (hsame : SameEdges first second) : first.Edge = second.Edge := by
  funext source target
  exact propext (hsame.edge source target)

theorem cycles_eq (hsame : SameEdges first second) (hfirst : first.WellFormed)
    (hsecond : second.WellFormed) : first.cycles = second.cycles :=
  cycles_congr hfirst hsecond fun name other => by rw [hsame.edge_eq]

theorem acyclic (hsame : SameEdges first second) (hacyclic : first.Acyclic) : second.Acyclic := by
  intro name hcycle
  rw [OnCycle, ← hsame.edge_eq] at hcycle
  exact hacyclic name hcycle

theorem longestFrom (hsame : SameEdges first second) (hlongest : first.LongestFrom name length) :
    second.LongestFrom name length := by
  have hwalk : first.IsWalk = second.IsWalk := by
    funext names
    rw [IsWalk, hsame.edge_eq, IsWalk]
  exact ⟨hwalk ▸ hlongest.attained, hwalk ▸ hlongest.bound⟩

/-- Without cycles the ranks do not depend on the order of the edges. -/
theorem ranks_eq (hsame : SameEdges first second) (hfirst : first.WellFormed)
    (hsecond : second.WellFormed) (hacyclic : first.Acyclic) : first.ranks = second.ranks := by
  have hrank : ∀ name ∈ first.names, first.rankOf name = second.rankOf name := by
    intro name hname
    have hlongest := (hacyclic.acyclicFrom name).longestFrom_rankOf hfirst hname
    exact (hsame.longestFrom hlongest).unique
      (((hsame.acyclic hacyclic).acyclicFrom name).longestFrom_rankOf hsecond (hsame.names ▸ hname))
  exact ranks_congr hfirst hsecond (fun name => by rw [hsame.names]) hrank

end SameEdges

end OberonImports.Graph
