import Mathlib.Data.List.Chain
import Mathlib.Logic.Relation
import OberonImports.Graph.Basic

/-!
# Walks and cycles in import graphs

The edges of a graph span a reachability relation. A name is on a cycle if a closed walk of at least
one edge passes through it. A part of a graph that no edge leaves, and along whose edges some height
falls, has no cycle.
-/

namespace OberonImports.Graph

open Relation

variable {graph : Graph} {name other source target : String}

/-- An edge leads from the first name to the second. -/
def Edge (graph : Graph) (source target : String) : Prop := (source, target) ∈ graph.edges

instance : Decidable (graph.Edge source target) := inferInstanceAs (Decidable (_ ∈ _))

/-- A walk of any number of edges leads from the first name to the second. -/
def Reaches (graph : Graph) : String → String → Prop := ReflTransGen graph.Edge

/-- A closed walk of at least one edge passes through a name. -/
def OnCycle (graph : Graph) (name : String) : Prop := TransGen graph.Edge name name

/-- No name is on a cycle. -/
def Acyclic (graph : Graph) : Prop := ∀ name, ¬ graph.OnCycle name

/-- A name leads to no cycle, whatever cycles there are elsewhere. -/
def AcyclicFrom (graph : Graph) (name : String) : Prop :=
  ∀ other, graph.Reaches name other → ¬ graph.OnCycle other

/-- An edge joins each name of a list to the next. -/
def IsWalk (graph : Graph) (names : List String) : Prop := names.IsChain graph.Edge

/-- The graph without some of its edges. -/
def without (graph : Graph) (edges : List (String × String)) : Graph :=
  { graph with edges := graph.edges.removeAll edges }

theorem mem_successors : target ∈ graph.successors source ↔ graph.Edge source target := by
  simp only [successors, Edge, List.mem_map, List.mem_filter, decide_eq_true_eq]
  constructor
  · rintro ⟨⟨first, second⟩, ⟨hmem, rfl⟩, rfl⟩
    exact hmem
  · intro hmem
    exact ⟨(source, target), ⟨hmem, rfl⟩, rfl⟩

theorem WellFormed.mem_names_of_mem_successors (hgraph : graph.WellFormed)
    (htarget : target ∈ graph.successors source) : target ∈ graph.names :=
  hgraph.target_mem _ (mem_successors.mp htarget)

theorem edge_without {edges : List (String × String)} :
    (graph.without edges).Edge source target ↔
      graph.Edge source target ∧ (source, target) ∉ edges := by
  simp [without, Edge, List.removeAll]

theorem Reaches.trans (hfirst : graph.Reaches source name) (hsecond : graph.Reaches name target) :
    graph.Reaches source target :=
  ReflTransGen.trans hfirst hsecond

theorem Reaches.refl : graph.Reaches name name := ReflTransGen.refl

theorem Edge.reaches (hedge : graph.Edge source target) : graph.Reaches source target :=
  ReflTransGen.single hedge

/-- The names in a part of the graph that no edge leaves lead to names in that part only. -/
theorem Reaches.mem_of_closed {inside : List String}
    (hclosed : ∀ source ∈ inside, ∀ target, graph.Edge source target → target ∈ inside)
    (hreach : graph.Reaches source target) (hsource : source ∈ inside) : target ∈ inside := by
  induction hreach with
  | refl => exact hsource
  | tail _ hedge ih => exact hclosed _ ih _ hedge

theorem Edge.onCycle (hedge : graph.Edge source target) (hback : graph.Reaches target source) :
    graph.OnCycle source :=
  TransGen.head' hedge hback

/-- A walk between different names has at least one edge. -/
theorem Reaches.transGen_of_ne (hreach : graph.Reaches source target) (hne : source ≠ target) :
    TransGen graph.Edge source target :=
  (reflTransGen_iff_eq_or_transGen.mp hreach).resolve_left hne.symm

theorem AcyclicFrom.of_edge (hacyclic : graph.AcyclicFrom source)
    (hedge : graph.Edge source target) : graph.AcyclicFrom target :=
  fun other hreach => hacyclic other (hedge.reaches.trans hreach)

theorem Acyclic.acyclicFrom (hacyclic : graph.Acyclic) (name : String) : graph.AcyclicFrom name :=
  fun other _ => hacyclic other

/-- A height that falls along all edges of a closed part of the graph excludes cycles in it. -/
theorem AcyclicFrom.of_height {inside : List String} (height : String → Nat)
    (hfalls : ∀ edge ∈ graph.edges, edge.1 ∈ inside →
      edge.2 ∈ inside ∧ height edge.2 < height edge.1)
    (hname : name ∈ inside) : graph.AcyclicFrom name := by
  have hclosed : ∀ source ∈ inside, ∀ target, graph.Edge source target → target ∈ inside :=
    fun source hsource target hedge => (hfalls _ hedge hsource).1
  have hlt : ∀ source ∈ inside, ∀ target, TransGen graph.Edge source target →
      height target < height source := by
    intro source hsource target hwalk
    induction hwalk with
    | single hedge => exact (hfalls _ hedge hsource).2
    | tail hwalk hedge ih =>
        have hmiddle := Reaches.mem_of_closed hclosed hwalk.to_reflTransGen hsource
        exact (hfalls _ hedge hmiddle).2.trans ih
  intro other hreach hcycle
  exact lt_irrefl _ (hlt other (hreach.mem_of_closed hclosed hname) other hcycle)

/-- A height that falls along all edges excludes cycles. -/
theorem Acyclic.of_height (hgraph : graph.WellFormed) (height : String → Nat)
    (hfalls : ∀ edge ∈ graph.edges, height edge.2 < height edge.1) : graph.Acyclic := by
  intro name hcycle
  obtain ⟨next, hedge, -⟩ := TransGen.head'_iff.mp hcycle
  have hacyclic : graph.AcyclicFrom name :=
    .of_height height (fun edge hmem _ => ⟨hgraph.target_mem edge hmem, hfalls edge hmem⟩)
      (hgraph.source_mem _ hedge)
  exact hacyclic name Reaches.refl hcycle

/-- A walk from a name that leads to no cycle visits no name twice. -/
theorem IsWalk.nodup {names : List String} (hwalk : graph.IsWalk (name :: names))
    (hacyclic : graph.AcyclicFrom name) : (name :: names).Nodup := by
  induction names generalizing name with
  | nil => exact List.pairwise_singleton _ name
  | cons next names ih =>
      obtain ⟨hedge, hrest⟩ := List.isChain_cons_cons.mp hwalk
      refine List.nodup_cons.mpr ⟨?_, ih hrest (hacyclic.of_edge hedge)⟩
      intro hmem
      have hpairs : (name :: next :: names).Pairwise (TransGen graph.Edge) :=
        (hwalk.imp fun _ _ => TransGen.single).pairwise
      exact hacyclic name Reaches.refl ((List.pairwise_cons.mp hpairs).1 name hmem)

end OberonImports.Graph
