import OberonImports.Proofs.Graph.Statement

/-!
# Reading a graph back from its drawing

The node statements of a drawing are those of the nodes, and the edge statements are those of the
edges, each kind in its order; the statements that group nodes are neither. So a drawing tells its
graph.
-/

namespace OberonImports.Graph

namespace Dot

variable {graph : Graph} {ranks : Ranks} {layout : Layout} {names : List String}
  {statement : Statement}

namespace Statement

/-- The node that the statement draws. -/
def node? : Statement → Option Node
  | .node drawn => some drawn
  | _ => none

/-- The edge that the statement draws. -/
def edge? : Statement → Option (String × String)
  | .edge source target => some (source, target)
  | _ => none

/-- The statement draws neither a node nor an edge. -/
def IsGrouping (statement : Statement) : Prop := statement.node? = none ∧ statement.edge? = none

end Statement

/-- The nodes that have a statement. -/
def drawnNodes (statements : List Statement) : List Node := statements.filterMap Statement.node?

/-- The edges that have a statement. -/
def drawnEdges (statements : List Statement) : List (String × String) :=
  statements.filterMap Statement.edge?

/-- What holds of the frames of clusters and of the names as members holds in each cluster. -/
theorem forall_mem_clusterStatements {initial : Char} {p : Statement → Prop}
    (hopen : ∀ id, p (.openCluster id)) (hlabel : ∀ text, p (.label text)) (hfilled : p .filled)
    (hlightgrey : p .lightgrey) (hmember : ∀ name ∈ names, p (.member name))
    (hclose : p .closeCluster) : ∀ statement ∈ clusterStatements names initial, p statement := by
  intro statement hmem
  simp only [clusterStatements, List.mem_append, List.mem_cons, List.not_mem_nil, or_false,
    List.mem_map] at hmem
  rcases hmem with ((rfl | rfl | rfl | rfl) | ⟨name, hname, rfl⟩) | rfl
  · exact hopen _
  · exact hlabel _
  · exact hfilled
  · exact hlightgrey
  · exact hmember name (mem_clusterMembers.mp hname).1
  · exact hclose

theorem isGrouping_of_mem_groupStatements (hmem : statement ∈ groupStatements graph ranks layout) :
    statement.IsGrouping := by
  cases layout with
  | rank =>
      obtain ⟨level, -, rfl⟩ := List.mem_map.mp hmem
      exact ⟨rfl, rfl⟩
  | alphabetic =>
      obtain ⟨initial, -, hcluster⟩ := List.mem_flatMap.mp hmem
      apply forall_mem_clusterStatements (p := Statement.IsGrouping) _ _ _ _ _ _ statement hcluster
        <;> simp [Statement.IsGrouping, Statement.node?, Statement.edge?]

/-- What a view of single statements sees of a drawing. -/
theorem filterMap_statements {α : Type} (view : Statement → Option α) :
    (statements graph ranks layout).filterMap view =
      graph.nodes.filterMap (fun node => view (.node node)) ++
      (groupStatements graph ranks layout).filterMap view ++
      graph.edges.filterMap (fun edge => view (.edge edge.1 edge.2)) ++ (view .close).toList := by
  simp only [statements, List.filterMap_append, List.filterMap_map]
  cases hclose : view .close <;> simp [hclose]

/-- A view that sees nothing of the groups. -/
theorem filterMap_statements_of_groups {α : Type} {view : Statement → Option α}
    (hgroups : ∀ statement ∈ groupStatements graph ranks layout, view statement = none) :
    (statements graph ranks layout).filterMap view =
      graph.nodes.filterMap (fun node => view (.node node)) ++
      graph.edges.filterMap (fun edge => view (.edge edge.1 edge.2)) ++ (view .close).toList := by
  rw [filterMap_statements, List.filterMap_eq_nil_iff.mpr hgroups, List.append_nil]

theorem drawnNodes_statements (graph : Graph) (ranks : Ranks) (layout : Layout) :
    drawnNodes (statements graph ranks layout) = graph.nodes := by
  rw [drawnNodes, filterMap_statements_of_groups fun statement hmem =>
    (isGrouping_of_mem_groupStatements hmem).1]
  simp [Statement.node?]

theorem drawnEdges_statements (graph : Graph) (ranks : Ranks) (layout : Layout) :
    drawnEdges (statements graph ranks layout) = graph.edges := by
  rw [drawnEdges, filterMap_statements_of_groups fun statement hmem =>
    (isGrouping_of_mem_groupStatements hmem).2]
  simp [Statement.edge?]

end Dot

/-- The graph whose drawing with the given options a text is. -/
def ofDot? (options : DotOptions) (text : String) : Option Graph :=
  (Dot.readStatements? options text).map fun statements =>
    ⟨Dot.drawnNodes statements, Dot.drawnEdges statements⟩

/-- Whatever the options, nodes and edges of a graph are read back from its drawing, in their order
and with what is a placeholder. Names may hold anything, parallel edges stay, and it makes no
difference with which ranks the graph was drawn. So different graphs have different drawings. -/
theorem ofDot?_dot (options : DotOptions) :
    (∀ (graph : Graph) (ranks : Ranks), ofDot? options (graph.dot ranks options) = some graph) ∧
    ∀ first second : Graph,
      first.dot first.ranks options = second.dot second.ranks options → first = second := by
  have hread : ∀ (graph : Graph) (ranks : Ranks),
      ofDot? options (graph.dot ranks options) = some graph := by
    intro graph ranks
    rw [ofDot?, Dot.readStatements?_dot, Option.map_some, Dot.drawnNodes_statements,
      Dot.drawnEdges_statements]
  refine ⟨hread, ?_⟩
  intro first second htext
  have hsame := hread second second.ranks
  rw [← htext, hread first first.ranks] at hsame
  exact Option.some.inj hsame

end OberonImports.Graph
