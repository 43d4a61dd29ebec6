import OberonImports.Config.Basic
import OberonImports.FileSystem.Write
import OberonImports.Report
import OberonImports.Scan.Summary

/-!
# Analyses

An analysis derives everything that a run reports from one scan: the registry of the scanned
modules, its import graph, the ranks and the cycles of the graph. The outputs of an analysis are two
files, the report and the drawing.
-/

namespace OberonImports

/-- Everything derived from one scan. -/
structure Analysis where
  registry : Registry
  graph : Graph
  ranks : Ranks
  cycles : List (List String)
  failures : List Failure

/-- Why an analysis fails. -/
inductive AnalysisError where
  | scan (error : ScanError)
  | duplicate (error : DuplicateError)
  deriving Repr, DecidableEq

/-- The texts of an error and of its causes, outermost first. -/
def AnalysisError.chain : AnalysisError → List String
  | scan (.walk root error) =>
      match error with
      | .os _ cause => [(ScanError.walk root error).message, error.message, cause.message]
      | .loop .. => [(ScanError.walk root error).message, error.message]
  | scan (.module path error) =>
      match error with
      | .read _ cause => [(ScanError.module path error).message, error.message, cause.message]
      | .nameNotFound => [(ScanError.module path error).message, error.message]
  | duplicate error => [error.message]

/-- Scan and analyze, with the policies of a configuration but the given one for bad files. -/
def analyzeWith (fs : FileSystem) (config : Config) (policy : ErrorPolicy) :
    Logged AnalysisError Analysis := do
  let summary ← (fs.scan config.testDir policy).mapError .scan
  Logged.log (Event.ofBuild summary.modules config.duplicates)
  let registry ← (Logged.ofExcept (Registry.build summary.modules config.duplicates)).mapError
    .duplicate
  let graph := Graph.ofRegistry registry config.unresolved
  let ranks := graph.ranks
  let cycles := graph.cycles
  Logged.log (Event.ofGraph registry config.unresolved)
  Logged.log (Event.ofRanks graph)
  Logged.log (Event.ofCycles graph)
  Logged.log [.analyzed registry.size graph.nodes.length graph.edges.length ranks.maxRank]
  return { registry, graph, ranks, cycles, failures := summary.failures }

/-- Scan and analyze, with the policies of a configuration. -/
def analyze (fs : FileSystem) (config : Config) : Logged AnalysisError Analysis :=
  analyzeWith fs config config.onError

namespace Analysis

def report (analysis : Analysis) : String := analysis.registry.report

def dot (analysis : Analysis) (options : Graph.DotOptions) : String :=
  analysis.graph.dot analysis.ranks options

end Analysis

/-- Why the outputs of an analysis cannot be written. -/
inductive OutputError where
  | report (path : Path) (error : OsError)
  | dot (path : Path) (error : OsError)
  deriving Repr, DecidableEq

def OutputError.chain : OutputError → List String
  | report path error => ["Error creating output file: " ++ path.display, error.message]
  | dot path error => ["Error creating DOT file: " ++ path.display, error.message]

/-- What writing the outputs leaves behind. -/
structure Output where
  fs : FileSystem
  events : List Event
  error? : Option OutputError

def FileSystem.writeText (fs : FileSystem) (medium : Medium) (path : Path) (text : String) :
    Written :=
  fs.write medium path (Text.Utf8.encode text)

namespace Analysis

variable (analysis : Analysis) (config : Config) (fs : FileSystem) (medium : Medium)

def writeDot : Output :=
  let written := fs.writeText medium config.outputDot (analysis.dot config.dotOptions)
  match written.error? with
  | some error => ⟨written.fs, [], some (.dot config.outputDot error)⟩
  | none => ⟨written.fs, [.wroteDot config.outputDot], none⟩

/-- Write the report of an analysis, and then the drawing unless the report fails. -/
def writeOutputs : Output :=
  let written := fs.writeText medium config.outputTxt analysis.report
  match written.error? with
  | some error => ⟨written.fs, [], some (.report config.outputTxt error)⟩
  | none =>
      let output := analysis.writeDot config written.fs medium
      { output with
        events := .wroteReport config.outputTxt analysis.registry.size :: output.events }

end Analysis

end OberonImports
