import OberonImports.Graph.Component
import OberonImports.Graph.Rank
import OberonImports.Scan.Extract
import OberonImports.Text.Literal

/-!
# Log events

An event is something that a run mentions in its log: a step that it takes, or a finding. Each event
has a level, and a text in which the values follow the message as `key=value`.
-/

namespace OberonImports

/-- How much an event matters, least first. -/
inductive LogLevel where
  | debug
  | info
  | warn
  deriving Repr, DecidableEq

def LogLevel.word : LogLevel → String
  | debug => "DEBUG"
  | info => "INFO"
  | warn => "WARN"

/-- Something that a run mentions in its log. -/
inductive Event where
  | loadingConfig (path : Path)
  | scanning (root : Path) (policy : ErrorPolicy)
  | parsing (path : Path)
  | skipping (path : Path) (error : ExtractError)
  | scanned (modules failures : Nat)
  | replacing (name : String)
  | merging (name : String)
  | omitting (name target : String)
  | breakingCycle (name : String)
  | foundCycle (names : List String)
  | analyzed (modules nodes edges maxRank : Nat)
  | wroteReport (path : Path) (modules : Nat)
  | wroteDot (path : Path)
  deriving Repr, DecidableEq

namespace Event

def level : Event → LogLevel
  | loadingConfig _ | scanning .. | scanned .. | wroteReport .. | wroteDot _ => .info
  | parsing _ | omitting .. | breakingCycle _ | analyzed .. => .debug
  | skipping .. | replacing _ | merging _ | foundCycle _ => .warn

/-- How a log names an error policy. -/
def policyName : ErrorPolicy → String
  | .abort => "Abort"
  | .collect => "Collect"

/-- The message of an event, and its values by their keys. -/
def messageAndValues : Event → String × List (String × String)
  | loadingConfig path => ("Loading config", [("path", path.display)])
  | scanning root policy =>
      ("Scanning for module files", [("root", root.display), ("policy", policyName policy)])
  | parsing path => ("Parsing module file", [("path", path.display)])
  | skipping path error =>
      ("Skipping module file", [("path", path.display), ("error", error.message)])
  | scanned modules failures =>
      ("Scan finished", [("modules", toString modules), ("failures", toString failures)])
  | replacing name => ("Duplicate module declaration replaces earlier one", [("module", name)])
  | merging name => ("Merging duplicate module declaration", [("module", name)])
  | omitting name target =>
      ("Omitting edge to undeclared module", [("module", name), ("import", target)])
  | breakingCycle name => ("Breaking import cycle", [("module", name)])
  | foundCycle names =>
      ("Import cycle detected; ranks inside it are approximate",
        [("modules", Text.literalList names)])
  | analyzed modules nodes edges maxRank =>
      ("Analysis complete", [("modules", toString modules), ("nodes", toString nodes),
        ("edges", toString edges), ("max_rank", toString maxRank)])
  | wroteReport path modules =>
      ("Wrote report", [("path", path.display), ("modules", toString modules)])
  | wroteDot path => ("Wrote DOT graph", [("path", path.display)])

/-- The line of an event: its level, its message, its values. -/
def line (event : Event) : String :=
  let (message, values) := event.messageAndValues
  let pairs := values.map fun (key, value) => key ++ "=" ++ value
  " ".intercalate ([event.level.word, message] ++ pairs)

/-- Whether a log shows an event: a verbose one shows all, any other the warnings. -/
def isShown (verbose : Bool) (event : Event) : Bool := verbose || event.level = .warn

/-- The events of settling a module whose name is taken. -/
def ofRepeat (policy : DuplicatePolicy) (new : Module) : List Event :=
  match policy with
  | .reject => []
  | .overwrite => [replacing new.name]
  | .merge => [merging new.name]

def ofInsert (registry : Registry) (policy : DuplicatePolicy) (new : Module) : List Event :=
  if registry.contains new.name then ofRepeat policy new else []

def ofBuild (modules : List Module) (policy : DuplicatePolicy) : List Event :=
  (Registry.repeats modules).flatMap (ofRepeat policy)

def ofGraph (registry : Registry) (policy : UnresolvedPolicy) : List Event :=
  (Graph.omitted registry policy).map fun (name, target) => omitting name target

def ofRanks (graph : Graph) : List Event := graph.brokenEdges.map fun edge => breakingCycle edge.2

def ofCycles (graph : Graph) : List Event := graph.cycles.map foundCycle

end Event

end OberonImports
