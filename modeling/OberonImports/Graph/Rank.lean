import OberonImports.Graph.Basic

/-!
# Ranks

A node that leads nowhere has rank 0, any other node one more than the highest rank among the nodes
that it leads to. On a graph without cycles the rank of a node is the length of the longest path
from it.

Ranks are found by walking the graph from each node in ascending order of names, along the edges of
a node in their order, and recording the rank of a node when all its edges have been followed. An
edge that leads back to a node on the current path is broken: it counts as if it led to a node of
rank 0.
-/

namespace OberonImports

/-- The ranks of nodes, in ascending order of names. -/
structure Ranks where
  byName : List (String × Nat)
  deriving Repr, DecidableEq, Inhabited

namespace Ranks

def ofList (pairs : List (String × Nat)) : Ranks := ⟨pairs.mergeSort (·.1 ≤ ·.1)⟩

def rank? (ranks : Ranks) (name : String) : Option Nat := ranks.byName.lookup name

/-- The names of one rank, in ascending order. -/
def level (ranks : Ranks) (rank : Nat) : List String :=
  (ranks.byName.filter (·.2 = rank)).map (·.1)

/-- The highest rank, or 0 if there is none. -/
def maxRank (ranks : Ranks) : Nat := ranks.byName.foldl (fun rank pair => max rank pair.2) 0

/-- The ranks that occur, in ascending order, each with its names. -/
def levels (ranks : Ranks) : List (Nat × List String) :=
  ((List.range (ranks.maxRank + 1)).map fun rank => (rank, ranks.level rank)).filter (·.2 ≠ [])

end Ranks

namespace Graph

/-- A walk in search of ranks: the ranks found and the edges broken, both newest first. -/
structure RankWalk where
  ranks : List (String × Nat)
  broken : List (String × String)
  deriving Repr, DecidableEq

namespace RankWalk

def start : RankWalk := ⟨[], []⟩

/-- Record a node all of whose edges have been followed: `deepest` is the highest rank behind
them. -/
def finish (walk : RankWalk) (name : String) (deepest : Option Nat) : RankWalk :=
  { walk with ranks := (name, deepest.elim 0 (· + 1)) :: walk.ranks }

/-- Follow edges of `source` to the `targets` in order. The names in `fresh` are those of the nodes
that are not on the current path. The result is the highest rank behind the edges. -/
def follow (graph : Graph) (fresh : List String) (source : String) :
    List String → Option Nat → RankWalk → Option Nat × RankWalk
  | [], deepest, walk => (deepest, walk)
  | target :: targets, deepest, walk =>
      match walk.ranks.lookup target with
      | some rank => follow graph fresh source targets (max deepest (some rank)) walk
      | none =>
          if _h : target ∈ fresh then
            let (behind, walk) :=
              follow graph (fresh.erase target) target (graph.successors target) none walk
            follow graph fresh source targets
              (max deepest (some (behind.elim 0 (· + 1)))) (walk.finish target behind)
          else
            follow graph fresh source targets (max deepest (some 0))
              { walk with broken := (source, target) :: walk.broken }
termination_by targets => (fresh.length, targets.length)
decreasing_by
  · exact .right _ (by simp)
  · have := List.length_erase_of_mem _h
    have := List.length_pos_of_mem _h
    exact .left _ _ (by omega)
  · exact .right _ (by simp)
  · exact .right _ (by simp)

/-- Walk from a node that starts no path yet. -/
def visit (graph : Graph) (walk : RankWalk) (root : String) : RankWalk :=
  match walk.ranks.lookup root with
  | some _ => walk
  | none =>
      let (deepest, walk) :=
        follow graph (graph.names.erase root) root (graph.successors root) none walk
      walk.finish root deepest

end RankWalk

/-- The walk from all nodes in ascending order of their names. -/
def rankWalk (graph : Graph) : RankWalk :=
  (graph.names.mergeSort (· ≤ ·)).foldl (RankWalk.visit graph) .start

def ranks (graph : Graph) : Ranks := .ofList graph.rankWalk.ranks

/-- The edges that the walk breaks, in order. -/
def brokenEdges (graph : Graph) : List (String × String) := graph.rankWalk.broken.reverse

end Graph

end OberonImports
