import OberonImports.Proofs.Graph.DotHeader
import OberonImports.Proofs.Graph.DotReading
import OberonImports.Proofs.Graph.OfRegistry
import OberonImports.Proofs.Graph.RankTable

/-!
# Groups in a drawing

A drawing groups nodes by their ranks or by the first characters of their names, never by both.
Either way the groups split the names: each name stands once, in the group of its key, and the
groups ascend by their keys. What a group or an edge names has a statement of its own.
-/

namespace OberonImports.Graph

/-- The groups split the names by their keys. -/
structure GroupedBy {κ : Type} [LT κ] (key : String → κ) (names : List String)
    (groups : List (List String)) : Prop where
  /-- Each name stands in exactly one group, and there once. -/
  perm : groups.flatten.Perm names
  together : ∀ first ∈ names, ∀ second ∈ names,
    (∃ group ∈ groups, first ∈ group ∧ second ∈ group) ↔ key first = key second
  keys_ascending : groups.Pairwise fun lower upper =>
    ∀ name ∈ lower, ∀ other ∈ upper, key name < key other
  ascending : ∀ group ∈ groups, group.Pairwise (· < ·)
  ne_nil : ∀ group ∈ groups, group ≠ []

/-- A group for each key, with the names of that key, is such a split. -/
theorem GroupedBy.of_keys {κ : Type} [Preorder κ] {key : String → κ} {names : List String}
    {keys : List κ} {group : κ → List String} (hnames : names.Nodup)
    (hkeys : keys.Pairwise (· < ·)) (hcover : ∀ name ∈ names, key name ∈ keys)
    (hmem : ∀ value ∈ keys, ∀ name, name ∈ group value ↔ name ∈ names ∧ key name = value)
    (hascending : ∀ value ∈ keys, (group value).Pairwise (· < ·))
    (hne : ∀ value ∈ keys, group value ≠ []) : GroupedBy key names (keys.map group) where
  perm := by
    have hnodup : (keys.map group).flatten.Nodup := by
      apply List.nodup_flatten.mpr
      constructor
      · intro members hmembers
        obtain ⟨value, hvalue, rfl⟩ := List.mem_map.mp hmembers
        exact (hascending value hvalue).imp fun hlt => hlt.ne
      · -- A name in two groups would have two keys.
        apply List.pairwise_map.mpr
        apply List.Pairwise.imp_of_mem _ hkeys
        intro lower upper hlower hupper hlt name hfirst hsecond
        exact hlt.ne (((hmem lower hlower name).mp hfirst).2.symm.trans
          ((hmem upper hupper name).mp hsecond).2)
    apply (List.perm_ext_iff_of_nodup hnodup hnames).mpr
    intro name
    rw [← List.flatMap_def, List.mem_flatMap]
    constructor
    · intro ⟨value, hvalue, hname⟩
      exact ((hmem value hvalue name).mp hname).1
    · intro hname
      have hvalue := hcover name hname
      exact ⟨key name, hvalue, (hmem _ hvalue name).mpr ⟨hname, rfl⟩⟩
  together := by
    intro first hfirst second hsecond
    constructor
    · intro ⟨members, hmembers, hone, hother⟩
      obtain ⟨value, hvalue, rfl⟩ := List.mem_map.mp hmembers
      exact ((hmem value hvalue first).mp hone).2.trans
        ((hmem value hvalue second).mp hother).2.symm
    · intro heq
      have hvalue := hcover first hfirst
      exact ⟨group (key first), List.mem_map.mpr ⟨_, hvalue, rfl⟩,
        (hmem _ hvalue first).mpr ⟨hfirst, rfl⟩, (hmem _ hvalue second).mpr ⟨hsecond, heq.symm⟩⟩
  keys_ascending := by
    apply List.pairwise_map.mpr
    apply List.Pairwise.imp_of_mem _ hkeys
    intro lower upper hlower hupper hlt name hname other hother
    rw [((hmem lower hlower name).mp hname).2, ((hmem upper hupper other).mp hother).2]
    exact hlt
  ascending := List.forall_mem_map.mpr hascending
  ne_nil := List.forall_mem_map.mpr hne

namespace Dot

variable {graph : Graph} {ranks : Ranks} {layout : Layout} {names : List String}
  {front rest : List Statement} {initial : Char} {name : String}

namespace Statement

/-- The names that the statement uses without drawing a node. -/
def mentions : Statement → List String
  | .rankGroup names => names
  | .member name => [name]
  | .edge source target => [source, target]
  | _ => []

/-- The names that the statement puts on one rank. -/
def rankGroup? : Statement → Option (List String)
  | .rankGroup names => some names
  | _ => none

/-- The name that the statement puts in the open cluster. -/
def member? : Statement → Option String
  | .member name => some name
  | _ => none

end Statement

/-- The groups of nodes that are put on one rank. -/
def drawnRankGroups (statements : List Statement) : List (List String) :=
  statements.filterMap Statement.rankGroup?

/-- The members of the cluster that is open. -/
def openMembers (statements : List Statement) : List String :=
  (statements.takeWhile (· ≠ .closeCluster)).filterMap Statement.member?

/-- The clusters, each with its members. -/
def drawnClusters : List Statement → List (String × List String)
  | [] => []
  | .openCluster id :: rest => (id, openMembers rest) :: drawnClusters rest
  | _ :: rest => drawnClusters rest

/-! ### Ranks -/

theorem drawnRankGroups_rank :
    drawnRankGroups (statements graph ranks .rank) = ranks.occurring.map ranks.level := by
  rw [drawnRankGroups, filterMap_statements, groupStatements, Ranks.levels_eq]
  simp [Statement.rankGroup?, List.filterMap_map, Function.comp_def]

/-- The ranks of a graph split its names. -/
theorem groupedBy_rankOf (hgraph : graph.WellFormed) : GroupedBy graph.rankOf graph.names
    (graph.ranks.occurring.map graph.ranks.level) := by
  apply GroupedBy.of_keys hgraph.nodup graph.ranks.pairwise_occurring
  · intro name hname
    exact Ranks.mem_occurring.mpr (List.ne_nil_of_mem ((mem_level hgraph).mpr ⟨hname, rfl⟩))
  · intro rank _ name
    exact mem_level hgraph
  · intro rank _
    exact Ranks.pairwise_level (pairwise_byName hgraph) rank
  · intro rank hrank
    exact Ranks.mem_occurring.mp hrank

/-! ### First characters -/

/-- The first character of a name that has one. -/
def initialOf (name : String) : Char := name.toList.headD default

theorem head?_eq_some_iff :
    name.toList.head? = some initial ↔ name ≠ "" ∧ initialOf name = initial := by
  cases hname : name.toList with
  | nil => simp [String.toList_eq_nil_iff.mp hname]
  | cons head tail =>
      have hne : name ≠ "" := by
        intro hempty
        rw [hempty] at hname
        cases hname
      simp [initialOf, hname, hne]

theorem mem_initials :
    initial ∈ initials names ↔ ∃ name ∈ names, name.toList.head? = some initial := by
  rw [initials, List.mem_eraseDups, List.mem_mergeSort, List.mem_filterMap]

theorem pairwise_initials (names : List String) : (initials names).Pairwise (· < ·) := by
  have hsorted := pairwise_mergeSort_key Char.toNat (names.filterMap (·.toList.head?))
  exact ((hsorted.sublist (eraseDups_sublist _)).and (nodup_eraseDups _)).imp fun ⟨hle, hne⟩ =>
    lt_of_le_of_ne hle hne

/-- The first characters of the names of a graph split those that have one. -/
theorem groupedBy_initialOf (hnames : names.Nodup) :
    GroupedBy initialOf (names.filter (· ≠ "")) ((initials names).map (clusterMembers names)) := by
  apply GroupedBy.of_keys (hnames.filter _) (pairwise_initials names)
  · intro name hname
    simp only [List.mem_filter, decide_eq_true_eq] at hname
    exact mem_initials.mpr ⟨name, hname.1, head?_eq_some_iff.mpr ⟨hname.2, rfl⟩⟩
  · intro initial _ name
    simp only [mem_clusterMembers, head?_eq_some_iff, List.mem_filter, decide_eq_true_eq, and_assoc]
  · intro initial _
    exact pairwise_mergeSort_of_nodup (hnames.filter _)
  · intro initial hinitial
    obtain ⟨name, hname, hhead⟩ := mem_initials.mp hinitial
    exact List.ne_nil_of_mem (mem_clusterMembers.mpr ⟨hname, hhead⟩)

theorem drawnClusters_append (hfront : ∀ id, .openCluster id ∉ front) :
    drawnClusters (front ++ rest) = drawnClusters rest := by
  induction front with
  | nil => rfl
  | cons statement front ih =>
      have hrest := ih fun id hmem => hfront id (List.mem_cons_of_mem _ hmem)
      cases statement with
      | openCluster id => exact absurd List.mem_cons_self (hfront id)
      | node | rankGroup | label | filled | lightgrey | member | closeCluster | edge | close =>
          exact hrest

/-- Members are read up to the end of their cluster. -/
theorem openMembers_members (members : List String) :
    openMembers (members.map .member ++ .closeCluster :: rest) = members := by
  induction members with
  | nil => rfl
  | cons name members ih =>
      rw [openMembers] at ih ⊢
      simpa [Statement.member?] using ih

theorem drawnClusters_cluster :
    drawnClusters (clusterStatements names initial ++ rest) =
      ("cluster_" ++ initial.toString, clusterMembers names initial) :: drawnClusters rest := by
  let described : List Statement := [.label initial.toString, .filled, .lightgrey]
  let ended : List Statement :=
    (clusterMembers names initial).map .member ++ .closeCluster :: rest
  have hshape : clusterStatements names initial ++ rest =
      .openCluster ("cluster_" ++ initial.toString) :: (described ++ ended) := by
    simp [clusterStatements, described, ended, clusterMembers]
  have hmembers : openMembers (described ++ ended) = clusterMembers names initial :=
    openMembers_members (clusterMembers names initial)
  have hended : drawnClusters ended = drawnClusters (.closeCluster :: rest) :=
    drawnClusters_append (by simp)
  have hrest : drawnClusters (described ++ ended) = drawnClusters rest := hended
  rw [hshape, drawnClusters, hmembers, hrest]

theorem drawnClusters_flatMap (initials : List Char) :
    drawnClusters (initials.flatMap (clusterStatements names) ++ rest) =
      initials.map (fun initial =>
        ("cluster_" ++ initial.toString, clusterMembers names initial)) ++ drawnClusters rest := by
  induction initials with
  | nil => rfl
  | cons initial initials ih =>
      rw [List.flatMap_cons, List.append_assoc, drawnClusters_cluster, ih]
      rfl

/-! ### The whole drawing -/

/-- A drawing by rank opens no cluster. -/
theorem drawnClusters_rank : drawnClusters (statements graph ranks .rank) = [] := by
  rw [← List.append_nil (statements graph ranks .rank)]
  exact drawnClusters_append (by simp [statements, groupStatements])

theorem drawnClusters_alphabetic :
    drawnClusters (statements graph ranks .alphabetic) = (initials graph.names).map fun initial =>
      ("cluster_" ++ initial.toString, clusterMembers graph.names initial) := by
  have hnodes : drawnClusters (graph.nodes.map .node ++ ((initials graph.names).flatMap
      (clusterStatements graph.names) ++ (graph.edges.map (fun edge => .edge edge.1 edge.2) ++
      [.close]))) = _ := drawnClusters_append (by simp)
  have hedges : drawnClusters ((graph.edges.map fun edge => .edge edge.1 edge.2) ++ [.close]) =
      [] := drawnClusters_append (by simp)
  rw [drawnClusters_flatMap, hedges, List.append_nil] at hnodes
  simpa only [statements, groupStatements, List.append_assoc] using hnodes

/-- A drawing by first characters puts no names on one rank. -/
theorem drawnRankGroups_alphabetic :
    drawnRankGroups (statements graph ranks .alphabetic) = [] := by
  have hgroups : ∀ statement ∈ groupStatements graph ranks .alphabetic,
      statement.rankGroup? = none := by
    intro statement hmem
    obtain ⟨initial, -, hcluster⟩ := List.mem_flatMap.mp hmem
    apply forall_mem_clusterStatements (p := (·.rankGroup? = none)) _ _ _ _ _ _ statement hcluster
      <;> simp [Statement.rankGroup?]
  rw [drawnRankGroups, filterMap_statements_of_groups hgroups]
  simp [Statement.rankGroup?]

/-- Groups name nothing but nodes. -/
theorem mem_names_of_group (hgraph : graph.WellFormed) {statement : Statement}
    (hstatement : statement ∈ groupStatements graph graph.ranks layout) :
    ∀ name ∈ statement.mentions, name ∈ graph.names := by
  cases layout with
  | rank =>
      rw [groupStatements, Ranks.levels_eq, List.map_map] at hstatement
      obtain ⟨rank, -, rfl⟩ := List.mem_map.mp hstatement
      intro name hname
      exact ((mem_level hgraph).mp hname).1
  | alphabetic =>
      obtain ⟨initial, -, hcluster⟩ := List.mem_flatMap.mp hstatement
      apply forall_mem_clusterStatements (p := fun statement =>
        ∀ name ∈ statement.mentions, name ∈ graph.names) _ _ _ _ _ _ statement hcluster
        <;> simp [Statement.mentions]

/-- Groups and edges name nothing but nodes. -/
theorem mem_names_of_mentions (hgraph : graph.WellFormed) {statement : Statement}
    (hstatement : statement ∈ statements graph graph.ranks layout) :
    ∀ name ∈ statement.mentions, name ∈ graph.names := by
  simp only [statements, List.mem_append, List.mem_map, List.mem_singleton] at hstatement
  rcases hstatement with ((⟨node, -, rfl⟩ | hgroup) | ⟨edge, hedge, rfl⟩) | rfl
  · simp [Statement.mentions]
  · exact mem_names_of_group hgraph hgroup
  · simp [Statement.mentions, hgraph.source_mem edge hedge, hgraph.target_mem edge hedge]
  · simp [Statement.mentions]

end Dot

/-- The drawing of the graph of a registry whose direction, if it is given one, is one identifier has
its hints and its statements, one a line, and nothing else. There is one statement for each node, and
one for each pair of a module and an import that is a node, in ascending order of the modules and
then in order of declaration; groups and edges name nothing but nodes. By rank, the nodes of each rank
that occurs are put on one rank; by first characters, the nodes whose names have one stand in the
cluster of that character. Groups and what they hold ascend, and no drawing has groups of both
kinds. -/
theorem dot_ofRegistry (registry : Registry) (policy : UnresolvedPolicy) (options : DotOptions)
    (hdirection : ∀ direction ∈ options.rankdir, Dot.identifier? direction ≠ none) :
    let graph := ofRegistry registry policy
    let text := graph.dot graph.ranks options
    ∃ statements : List Dot.Statement,
      text = Text.unlines (Dot.header options ++ statements.map Dot.Statement.text) ∧
      Dot.readDrawing? text = some (Dot.hints options, statements) ∧
      Dot.drawnNodes statements = graph.nodes ∧ graph.names.Nodup ∧
      (∀ statement ∈ statements, ∀ name ∈ statement.mentions,
        ∃ node ∈ Dot.drawnNodes statements, node.name = name) ∧
      Dot.drawnEdges statements = registry.modules.flatMap (fun module =>
        (module.imports.eraseDups.filter (· ∈ graph.names)).map (module.name, ·)) ∧
      (registry.modules.map (·.name)).Pairwise (· < ·) ∧
      (Dot.drawnEdges statements).Nodup ∧
      match options.layout with
      | .rank =>
          Dot.drawnClusters statements = [] ∧
          (∀ name ∈ graph.names, graph.ranks.rank? name = some (graph.rankOf name)) ∧
          GroupedBy graph.rankOf graph.names (Dot.drawnRankGroups statements)
      | .alphabetic =>
          Dot.drawnRankGroups statements = [] ∧
          GroupedBy Dot.initialOf (graph.names.filter (· ≠ ""))
            ((Dot.drawnClusters statements).map (·.2)) ∧
          ∀ cluster ∈ Dot.drawnClusters statements, ∀ name ∈ cluster.2,
            cluster.1 = "cluster_" ++ (Dot.initialOf name).toString := by
  intro graph text
  have hgraph : graph.WellFormed := wellFormed_ofRegistry registry policy
  refine ⟨Dot.statements graph graph.ranks options.layout, ?_,
    Dot.readDrawing?_dot graph _ hdirection, Dot.drawnNodes_statements graph _ _, hgraph.nodup, ?_, ?_,
    List.pairwise_map.mpr registry.ascending, ?_, ?_⟩
  · rw [← Dot.lines_eq]
    rfl
  · intro statement hstatement name hname
    rw [Dot.drawnNodes_statements]
    exact List.mem_map.mp (Dot.mem_names_of_mentions hgraph hstatement name hname)
  · rw [Dot.drawnEdges_statements]
    exact edges_ofRegistry
  · rw [Dot.drawnEdges_statements]
    exact nodup_edges_ofRegistry
  · cases options.layout with
    | rank =>
        refine ⟨Dot.drawnClusters_rank, fun name hname => rank?_ranks hgraph hname, ?_⟩
        rw [Dot.drawnRankGroups_rank]
        exact Dot.groupedBy_rankOf hgraph
    | alphabetic =>
        refine ⟨Dot.drawnRankGroups_alphabetic, ?_, ?_⟩
        · rw [Dot.drawnClusters_alphabetic, List.map_map]
          exact Dot.groupedBy_initialOf hgraph.nodup
        · intro cluster hcluster name hname
          rw [Dot.drawnClusters_alphabetic] at hcluster
          obtain ⟨initial, -, rfl⟩ := List.mem_map.mp hcluster
          rw [(Dot.head?_eq_some_iff.mp (Dot.mem_clusterMembers.mp hname).2).2]

/-- One module that imports what no module declares. -/
def loneImporter : Registry where
  modules := [⟨"A", ["B"], none⟩]
  ascending := by decide

theorem ofRegistry_loneImporter : ofRegistry loneImporter .placeholder =
      ⟨[⟨"A", false⟩, ⟨"B", true⟩], [("A", "B")]⟩ ∧
    ofRegistry loneImporter .drop = ⟨[⟨"A", false⟩], []⟩ := by
  decide +kernel

theorem dot_loneImporter : ∃ statements,
    Dot.readDrawing? ((ofRegistry loneImporter .placeholder).dot
      (ofRegistry loneImporter .placeholder).ranks ⟨.rank, some "LR", some "4,4"⟩) =
        some ([("rankdir", "LR"), ("size", "4,4")], statements) ∧
    Dot.drawnNodes statements = [⟨"A", false⟩, ⟨"B", true⟩] ∧
    Dot.drawnEdges statements = [("A", "B")] ∧
    GroupedBy (ofRegistry loneImporter .placeholder).rankOf ["A", "B"]
      (Dot.drawnRankGroups statements) := by
  have hdirection : ∀ direction ∈ some "LR", Dot.identifier? direction ≠ none := by decide
  obtain ⟨statements, -, hread, hnodes, -, -, hedges, -, -, -, -, hgroups⟩ :=
    dot_ofRegistry loneImporter .placeholder ⟨.rank, some "LR", some "4,4"⟩ hdirection
  obtain ⟨hgraph, -⟩ := ofRegistry_loneImporter
  have hnames : (ofRegistry loneImporter .placeholder).names = ["A", "B"] := by
    rw [hgraph]
    rfl
  refine ⟨statements, hread, ?_, ?_, hnames ▸ hgroups⟩
  · rw [hnodes, hgraph]
  · rw [hedges, hnames]
    decide +kernel

/-- A direction that is more than one identifier brings an edge into a drawing, and neither of the
two names has a node. -/
theorem dot_loose_direction :
    let graph := ofRegistry loneImporter .drop
    let text := graph.dot graph.ranks ⟨.rank, some "LR; \"Ghost\" -> \"Gone\"", none⟩
    ∃ lines, Text.QuotedLine.read? text.toList = some lines ∧
      ("Ghost", "Gone") ∈ lines.flatMap (Dot.arrows ·.ids) ∧
      (lines.filterMap Dot.Statement.ofLine?).filterMap Dot.Statement.node? = [⟨"A", false⟩] ∧
      graph.nodes = [⟨"A", false⟩] := by
  intro graph text
  have hgraph : graph = ⟨[⟨"A", false⟩], []⟩ := ofRegistry_loneImporter.2
  let lines : List Text.QuotedLine := [⟨"digraph modules \x7b", []⟩,
    ⟨"    rankdir=LR; ", [("Ghost", " -> "), ("Gone", ";")]⟩, ⟨Dot.nodeLookLine, []⟩,
    (Dot.Statement.node ⟨"A", false⟩).line, (Dot.Statement.rankGroup ["A"]).line,
    Dot.Statement.close.line]
  have hplain : ∀ line ∈ lines, line.IsPlain := by
    unfold Text.QuotedLine.IsPlain
    decide
  have hranks : ranks ⟨[⟨"A", false⟩], []⟩ = ⟨[("A", 0)]⟩ := by
    simp [ranks, rankWalk, names, successors, RankWalk.visit, RankWalk.follow_nil,
      RankWalk.finish, RankWalk.start, Ranks.ofList]
  have hlevels : Ranks.levels (ranks ⟨[⟨"A", false⟩], []⟩) = [(0, ["A"])] := by
    rw [hranks]
    decide
  have htext : text = Text.unlines (lines.map Text.QuotedLine.text) := by
    simp only [text, hgraph, dot, Dot.lines, Dot.groupLines, hlevels]
    rfl
  refine ⟨lines, ?_, by decide, by decide, by rw [hgraph]⟩
  rw [htext]
  exact Text.QuotedLine.read?_unlines hplain

end OberonImports.Graph
