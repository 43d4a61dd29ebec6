import OberonImports.Graph.Dot
import OberonImports.Proofs.Text.Pieces
import OberonImports.Proofs.Text.QuotedLine

/-!
# Statements of a drawing

Behind its hints a drawing has one statement a line. The plain text of the line tells the kind of
the statement, and its identifiers tell the rest. So the statements are read back from the text,
whatever the names hold.
-/

namespace OberonImports.Graph.Dot

open Text (QuotedLine)
open Text.DotId (quote)

variable {graph : Graph} {ranks : Ranks} {options : DotOptions} {names : List String}

/-- A statement of a drawing. A cluster is opened, described, filled with members and closed. -/
inductive Statement where
  | node (node : Node)
  | rankGroup (names : List String)
  | openCluster (id : String)
  | label (text : String)
  | filled
  | lightgrey
  | member (name : String)
  | closeCluster
  | edge (source target : String)
  | close
  deriving Repr, DecidableEq

namespace Statement

variable {statement : Statement} {statements : List Statement} {written : QuotedLine}

/-- The members of a rank group, each with what separates it from the next or ends the group. -/
def groupIds : List String → List (String × String)
  | [] => []
  | [name] => [(name, "; \x7d")]
  | name :: names => (name, "; ") :: groupIds names

/-- The line of a statement. -/
def line : Statement → QuotedLine
  | node ⟨name, false⟩ => ⟨"    ", [(name, " [label="), (name, "];")]⟩
  | node ⟨name, true⟩ =>
      ⟨"    ", [(name, " [label="), (name, ", style="), ("filled,dashed", ", fillcolor=white];")]⟩
  | rankGroup [] => ⟨"    \x7b rank=same; ; \x7d", []⟩
  | rankGroup (name :: names) => ⟨"    \x7b rank=same; ", groupIds (name :: names)⟩
  | openCluster id => ⟨"    subgraph ", [(id, " \x7b")]⟩
  | label text => ⟨"        label=", [(text, ";")]⟩
  | filled => ⟨"        style=filled;", []⟩
  | lightgrey => ⟨"        color=lightgrey;", []⟩
  | member name => ⟨"        ", [(name, ";")]⟩
  | closeCluster => ⟨"    \x7d", []⟩
  | edge source target => ⟨"    ", [(source, " -> "), (target, ";")]⟩
  | close => ⟨"\x7d", []⟩

/-- The only statement that a line of this shape can be. -/
def ofShape? : QuotedLine → Option Statement
  | ⟨"    ", [(source, " -> "), (target, _)]⟩ => some (edge source target)
  | ⟨"    ", [(name, _), _]⟩ => some (node ⟨name, false⟩)
  | ⟨"    ", [(name, _), _, _]⟩ => some (node ⟨name, true⟩)
  | ⟨"    \x7b rank=same; ; \x7d", _⟩ => some (rankGroup [])
  | ⟨"    \x7b rank=same; ", ids⟩ => some (rankGroup (ids.map (·.1)))
  | ⟨"    subgraph ", [(id, _)]⟩ => some (openCluster id)
  | ⟨"        label=", [(text, _)]⟩ => some (label text)
  | ⟨"        style=filled;", _⟩ => some filled
  | ⟨"        color=lightgrey;", _⟩ => some lightgrey
  | ⟨"        ", [(name, _)]⟩ => some (member name)
  | ⟨"    \x7d", _⟩ => some closeCluster
  | ⟨"\x7d", _⟩ => some close
  | _ => none

/-- The statement that is written as a line. -/
def ofLine? (written : QuotedLine) : Option Statement :=
  (ofShape? written).filter (·.line = written)

theorem map_groupIds (names : List String) : (groupIds names).map (·.1) = names := by
  induction names with
  | nil => rfl
  | cons name names ih =>
      cases names with
      | nil => rfl
      | cons next names => simpa [groupIds] using ih

theorem ofShape?_line (statement : Statement) : ofShape? statement.line = some statement := by
  match statement with
  | node ⟨name, false⟩ => rfl
  | node ⟨name, true⟩ => rfl
  | rankGroup [] => rfl
  | rankGroup (name :: names) => simp [line, ofShape?, map_groupIds]
  | openCluster id => rfl
  | label text => rfl
  | filled => rfl
  | lightgrey => rfl
  | member name => rfl
  | closeCluster => rfl
  | edge source target => rfl
  | close => rfl

/-- A line is read as the statement that it is the line of, and no other line is read. -/
theorem ofLine?_eq_some : ofLine? written = some statement ↔ statement.line = written := by
  simp only [ofLine?, Option.filter_eq_some_iff, decide_eq_true_eq]
  constructor
  · exact fun ⟨_, hline⟩ => hline
  · intro hline
    exact ⟨hline ▸ ofShape?_line statement, hline⟩

theorem isPlain_groupIds (front : String) (names : List String)
    (hfront : '"' ∉ front.toList ∧ '\n' ∉ front.toList) :
    QuotedLine.IsPlain ⟨front, groupIds names⟩ := by
  refine List.forall_mem_cons.mpr ⟨hfront, ?_⟩
  induction names with
  | nil => simp [groupIds]
  | cons name names ih =>
      cases names with
      | nil => simp [groupIds]
      | cons next names => exact List.forall_mem_cons.mpr ⟨by simp, ih⟩

/-- What stands between the identifiers of a statement has neither quotes nor line feeds. -/
theorem isPlain_line (statement : Statement) : statement.line.IsPlain := by
  match statement with
  | rankGroup (name :: names) => exact isPlain_groupIds _ _ (by simp)
  | rankGroup [] | node ⟨_, false⟩ | node ⟨_, true⟩ | edge _ _ | openCluster _ | label _ | filled
  | lightgrey | member _ | closeCluster | close => simp [line, QuotedLine.IsPlain]

/-- The text of a statement, without the end of its line. -/
def text (statement : Statement) : String := statement.line.text

theorem text_node (node : Node) : (Statement.node node).text = nodeLine node := by
  obtain ⟨name, isPlaceholder⟩ := node
  cases isPlaceholder with
  | false => rfl
  | true =>
      have hstyle : ", style=" ++ (quote "filled,dashed" ++ ", fillcolor=white];") =
          ", style=\"filled,dashed\", fillcolor=white];" := by decide
      simp only [text, line, QuotedLine.text, List.foldl_cons, List.foldl_nil, String.append_assoc,
        hstyle]
      simp only [nodeLine, if_true, String.append_assoc]

theorem text_edge (pair : String × String) : (edge pair.1 pair.2).text = edgeLine pair := rfl

/-- By induction on the members behind the first. -/
theorem foldl_groupIds (front name : String) (names : List String) :
    (groupIds (name :: names)).foldl (fun text (id, behind) => text ++ quote id ++ behind) front =
      front ++ "; ".intercalate ((name :: names).map quote) ++ "; \x7d" := by
  induction names generalizing front name with
  | nil => simp [groupIds]
  | cons next names ih =>
      rw [groupIds, List.foldl_cons, ih, List.map_cons, List.map_cons, List.map_cons,
        String.intercalate_cons_cons]
      · simp only [String.append_assoc]
      · simp

theorem text_rankGroup (names : List String) : (rankGroup names).text = rankLine names := by
  cases names with
  | nil => rfl
  | cons name names => exact foldl_groupIds _ name names

end Statement

/-! ## The text of a drawing -/

/-- The lines in front of the statements. -/
def header (options : DotOptions) : List String :=
  ["digraph modules \x7b"]
  ++ options.rankdir.toList.map rankdirLine
  ++ options.size.toList.map sizeLine
  ++ [nodeLookLine]

/-- The names that begin with one character, in ascending order. -/
def clusterMembers (names : List String) (initial : Char) : List String :=
  (names.filter (·.toList.head? = some initial)).mergeSort (· ≤ ·)

/-- The statements of the cluster of the names that begin with one character. -/
def clusterStatements (names : List String) (initial : Char) : List Statement :=
  [.openCluster ("cluster_" ++ initial.toString), .label initial.toString, .filled, .lightgrey]
  ++ (clusterMembers names initial).map .member
  ++ [.closeCluster]

/-- The statements that group the nodes. -/
def groupStatements (graph : Graph) (ranks : Ranks) : Layout → List Statement
  | .rank => ranks.levels.map fun (_, names) => .rankGroup names
  | .alphabetic => (initials graph.names).flatMap (clusterStatements graph.names)

/-- The statements of a drawing. -/
def statements (graph : Graph) (ranks : Ranks) (layout : Layout) : List Statement :=
  graph.nodes.map .node
  ++ groupStatements graph ranks layout
  ++ graph.edges.map (fun (source, target) => .edge source target)
  ++ [.close]

theorem mem_clusterMembers {initial : Char} {name : String} :
    name ∈ clusterMembers names initial ↔ name ∈ names ∧ name.toList.head? = some initial := by
  simp [clusterMembers, List.mem_mergeSort]

theorem text_clusterStatements (initial : Char) :
    (clusterStatements names initial).map Statement.text = clusterLines names initial := by
  simp only [clusterStatements, clusterLines, List.map_append, List.map_map]
  rfl

theorem text_groupStatements (layout : Layout) :
    (groupStatements graph ranks layout).map Statement.text = groupLines graph ranks layout := by
  cases layout with
  | rank => simp [groupStatements, groupLines, Statement.text_rankGroup]
  | alphabetic =>
      simp only [groupStatements, groupLines, List.map_flatMap, text_clusterStatements]

theorem lines_eq : lines graph ranks options =
    header options ++ (statements graph ranks options.layout).map Statement.text := by
  have hnodes : (graph.nodes.map Statement.node).map Statement.text = graph.nodes.map nodeLine := by
    simp [Statement.text_node]
  have hedges : (graph.edges.map fun (source, target) => Statement.edge source target).map
      Statement.text = graph.edges.map edgeLine := by
    simp [Statement.text_edge]
  simp only [lines, header, statements, List.map_append, hnodes, hedges, text_groupStatements,
    List.append_assoc]
  rfl

/-- The statements of a drawing with the given options, unless some line is no statement. -/
def readStatements? (options : DotOptions) (text : String) : Option (List Statement) := do
  let body ← Text.dropMark? (Text.unlines (header options)).toList text.toList
  let lines ← QuotedLine.read? body
  lines.mapM Statement.ofLine?

/-- Statements are read back from their lines. -/
theorem mapM_ofLine? (statements : List Statement) :
    (statements.map Statement.line).mapM Statement.ofLine? = some statements :=
  Text.mapM_map_eq_some fun _ _ => Statement.ofLine?_eq_some.mpr rfl

theorem read?_statements (statements : List Statement) :
    QuotedLine.read? (Text.unlines (statements.map Statement.text)).toList =
      some (statements.map Statement.line) := by
  have hplain : ∀ line ∈ statements.map Statement.line, line.IsPlain := by
    intro line hline
    obtain ⟨statement, -, rfl⟩ := List.mem_map.mp hline
    exact statement.isPlain_line
  have hread := QuotedLine.read?_unlines hplain
  rwa [List.map_map] at hread

/-- The statements are read back from the text of a drawing, behind a header that is known. -/
theorem readStatements?_dot (graph : Graph) (ranks : Ranks) (options : DotOptions) :
    readStatements? options (graph.dot ranks options) =
      some (statements graph ranks options.layout) := by
  generalize hstatements : statements graph ranks options.layout = drawn
  have htext : (graph.dot ranks options).toList = (Text.unlines (header options)).toList ++
      (Text.unlines (drawn.map Statement.text)).toList := by
    rw [dot, lines_eq, hstatements]
    simp only [Text.unlines, List.map_append, String.toList_join, List.flatMap_append]
  rw [readStatements?, htext, Text.dropMark?_append]
  simp only [Option.bind_eq_bind, Option.bind_some, read?_statements]
  exact mapM_ofLine? drawn

end OberonImports.Graph.Dot
