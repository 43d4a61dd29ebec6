import OberonImports.Registry.Basic

/-!
# Import graphs

A graph has named nodes in a fixed order, each a declared module or a placeholder for one that is
not declared, and edges in the order in which they were drawn. An edge leads from an importing
module to what it imports. A graph drawn by hand may have parallel edges; the graph of a registry
has one edge for each distinct import.
-/

namespace OberonImports

/-- A node of an import graph. -/
structure Node where
  name : String
  isPlaceholder : Bool
  deriving Repr, DecidableEq

/-- An import graph. Edges are pairs of the importing and the imported name. -/
structure Graph where
  nodes : List Node
  edges : List (String × String)
  deriving Repr, DecidableEq, Inhabited

namespace Graph

def names (graph : Graph) : List String := graph.nodes.map (·.name)

/-- What a node leads to, in the order of its edges, once for each edge. -/
def successors (graph : Graph) (name : String) : List String :=
  (graph.edges.filter (·.1 = name)).map (·.2)

def hasEdge (graph : Graph) (source target : String) : Bool :=
  graph.edges.contains (source, target)

/-- The position of a node, of the last one if several have the name. -/
def indexOf? (graph : Graph) (name : String) : Option Nat :=
  graph.names.zipIdx.reverse.lookup name

/-- The names of the nodes differ, and every edge joins two nodes. -/
structure WellFormed (graph : Graph) : Prop where
  nodup : graph.names.Nodup
  source_mem : ∀ edge ∈ graph.edges, edge.1 ∈ graph.names
  target_mem : ∀ edge ∈ graph.edges, edge.2 ∈ graph.names

/-- Draw an edge unless there is one already. -/
def link (graph : Graph) (source target : String) : Graph :=
  if graph.hasEdge source target then graph
  else { graph with edges := graph.edges ++ [(source, target)] }

/-- Draw the imports of a module that lead to nodes. -/
def linkImports (graph : Graph) (module : Module) : Graph :=
  module.imports.foldl
    (fun graph name => if name ∈ graph.names then graph.link module.name name else graph) graph

/-- The nodes of the graph of a registry: the declared modules and, if the policy wants them,
placeholders for the imports that no module declares. -/
def nodesOf (registry : Registry) (policy : UnresolvedPolicy) : List Node :=
  let declared := registry.modules.map fun module => ⟨module.name, false⟩
  match policy with
  | .drop => declared
  | .placeholder => declared ++ registry.unresolvedImports.map (⟨·, true⟩)

def ofRegistry (registry : Registry) (policy : UnresolvedPolicy) : Graph :=
  registry.modules.foldl linkImports ⟨nodesOf registry policy, []⟩

/-- The imports that lead to no node, as pairs of importing and imported name. -/
def omitted (registry : Registry) (policy : UnresolvedPolicy) : List (String × String) :=
  let names := (nodesOf registry policy).map (·.name)
  registry.modules.flatMap fun module =>
    (module.imports.filter (· ∉ names)).map (module.name, ·)

end Graph

end OberonImports
