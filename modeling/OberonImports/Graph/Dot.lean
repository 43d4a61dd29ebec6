import OberonImports.Graph.Rank
import OberonImports.Text.DotId
import OberonImports.Text.Lines

/-!
# Drawing a graph in the DOT language

The text has one statement a line: the hints that were asked for, the default look of nodes, a
statement for each node, the groups of the layout, a statement for each edge. Names are quoted
identifiers wherever they stand.
-/

namespace OberonImports.Graph

open Text.DotId (quote)

/-- What a drawing may be given: the layout, a direction in which ranks grow, a size. -/
structure DotOptions where
  layout : Layout
  rankdir : Option String
  size : Option String
  deriving Repr, DecidableEq, Inhabited

namespace Dot

/-- The direction hint. The direction is written as it is. -/
def rankdirLine (direction : String) : String := "    rankdir=" ++ direction ++ ";"

def sizeLine (size : String) : String := "    size=" ++ quote size ++ ";"

/-- The look of nodes unless their own statement changes it. -/
def nodeLookLine : String := "    node [shape=box, style=filled, fillcolor=lightblue];"

/-- The statement of a node. Placeholders are dashed and white. -/
def nodeLine (node : Node) : String :=
  let id := quote node.name
  if node.isPlaceholder then
    "    " ++ id ++ " [label=" ++ id ++ ", style=\"filled,dashed\", fillcolor=white];"
  else "    " ++ id ++ " [label=" ++ id ++ "];"

def edgeLine (edge : String × String) : String :=
  "    " ++ quote edge.1 ++ " -> " ++ quote edge.2 ++ ";"

def rankLine (names : List String) : String :=
  "    \x7b rank=same; " ++ "; ".intercalate (names.map quote) ++ "; \x7d"

/-- The first characters of the names that have one, in ascending order and each once. -/
def initials (names : List String) : List Char :=
  ((names.filterMap (·.toList.head?)).mergeSort (·.toNat ≤ ·.toNat)).eraseDups

/-- The cluster of the names that begin with one character, in ascending order. -/
def clusterLines (names : List String) (initial : Char) : List String :=
  let label := initial.toString
  let members := (names.filter (·.toList.head? = some initial)).mergeSort (· ≤ ·)
  ["    subgraph " ++ quote ("cluster_" ++ label) ++ " \x7b",
    "        label=" ++ quote label ++ ";",
    "        style=filled;",
    "        color=lightgrey;"]
  ++ members.map (fun name => "        " ++ quote name ++ ";")
  ++ ["    \x7d"]

/-- The groups of a layout. -/
def groupLines (graph : Graph) (ranks : Ranks) : Layout → List String
  | .rank => ranks.levels.map fun (_, names) => rankLine names
  | .alphabetic => (initials graph.names).flatMap (clusterLines graph.names)

def lines (graph : Graph) (ranks : Ranks) (options : DotOptions) : List String :=
  ["digraph modules \x7b"]
  ++ options.rankdir.toList.map rankdirLine
  ++ options.size.toList.map sizeLine
  ++ [nodeLookLine]
  ++ graph.nodes.map nodeLine
  ++ groupLines graph ranks options.layout
  ++ graph.edges.map edgeLine
  ++ ["\x7d"]

end Dot

/-- The drawing of a graph with given ranks, each line ended by a line feed. -/
def dot (graph : Graph) (ranks : Ranks) (options : DotOptions) : String :=
  Text.unlines (Dot.lines graph ranks options)

end OberonImports.Graph
