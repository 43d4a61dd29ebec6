import OberonImports.Analysis
import OberonImports.CommandLine.Arguments
import OberonImports.Config.Load
import OberonImports.Terminal.Message

/-!
# Commands

A command loads a configuration, analyzes what it names and tells about the analysis. Only `run`
writes files. A command that fails says why, and its exit status is 1; the status of a usage error
is 2.
-/

namespace OberonImports.CommandLine

/-- What a run leaves behind: the file system, the exit status, what was printed, the events of the
log, and the texts of the error and its causes, if there was one. -/
structure Outcome where
  fs : FileSystem
  status : Nat
  output : String
  events : List Event
  error : List String

namespace Outcome

def success (fs : FileSystem) (output : String) : Outcome := ⟨fs, 0, output, [], []⟩

def failure (fs : FileSystem) (output : String) (error : List String) : Outcome :=
  ⟨fs, 1, output, [], error⟩

def after (events : List Event) (outcome : Outcome) : Outcome :=
  { outcome with events := events ++ outcome.events }

/-- Go on with the value of a computation, or fail as it does. -/
def ofLogged {ε α : Type} (fs : FileSystem) (computation : Logged ε α) (chain : ε → List String)
    (next : α → Outcome) : Outcome :=
  match computation.result with
  | .error error => (failure fs "" (chain error)).after computation.events
  | .ok value => (next value).after computation.events

end Outcome

/-- What all commands are given: the file system and what its files are kept on, the configuration,
and whether the terminal has colours. -/
structure Setup where
  fs : FileSystem
  medium : Medium
  config : Config
  colours : Bool

namespace Setup

variable (setup : Setup)

def count (n : Nat) (things : String) : String := toString n ++ " " ++ things

/-- Go on with the analysis of what the configuration names. -/
def analyzed (next : Analysis → Outcome) : Outcome :=
  Outcome.ofLogged setup.fs (analyze setup.fs setup.config) AnalysisError.chain next

/-- Write the report and the drawing, and sum up. -/
def run : Outcome :=
  setup.analyzed fun analysis =>
    let failures := Terminal.failures setup.colours analysis.failures
    let written := analysis.writeOutputs setup.config setup.fs setup.medium
    let outcome := match written.error? with
      | some error => Outcome.failure written.fs (Text.unlines failures) error.chain
      | none =>
          Outcome.success written.fs (Text.unlines (failures
            ++ Terminal.info setup.colours (", ".intercalate
                [count analysis.registry.size "module(s)",
                  count analysis.graph.edges.length "edge(s)",
                  "max rank " ++ toString analysis.ranks.maxRank])
            ++ Terminal.cycles setup.colours analysis.cycles
            ++ Terminal.success setup.colours
                ("Wrote " ++ setup.config.outputTxt.display ++ " and "
                  ++ setup.config.outputDot.display ++ ".")))
    outcome.after written.events

def list : Outcome :=
  setup.analyzed fun analysis => Outcome.success setup.fs analysis.report

def graph : Outcome :=
  setup.analyzed fun analysis =>
    Outcome.success setup.fs (analysis.dot setup.config.dotOptions)

/-- Print the ranks as a table, or as a document. -/
def ranks (json : Bool) : Outcome :=
  setup.analyzed fun analysis =>
    Outcome.success setup.fs <| Text.unlines <|
      if json then [(analysis.ranks.document analysis.cycles).pretty]
      else
        Terminal.failures setup.colours analysis.failures
          ++ Terminal.ranks setup.colours analysis.ranks
          ++ Terminal.cycles setup.colours analysis.cycles

/-- Try every file, tell what is wrong, and fail if a file yields no module. -/
def validate : Outcome :=
  Outcome.ofLogged setup.fs (analyzeWith setup.fs setup.config .collect) AnalysisError.chain
    fun analysis =>
      let findings :=
        Terminal.info setup.colours ("Scanned " ++ setup.config.testDir.display)
          ++ Terminal.info setup.colours (count analysis.registry.size "module(s)"
              ++ ", unresolved imports: " ++ setup.config.unresolved.word)
          ++ Terminal.unresolved setup.colours analysis.registry.unresolvedImports
          ++ Terminal.cycles setup.colours analysis.cycles
          ++ Terminal.failures setup.colours analysis.failures
      if analysis.failures.isEmpty then
        Outcome.success setup.fs (Text.unlines (findings
          ++ Terminal.success setup.colours "All module files parsed."))
      else
        Outcome.failure setup.fs (Text.unlines (findings
          ++ Terminal.failure setup.colours
              (count analysis.failures.length "file(s) could not be parsed.")))
          ["validation failed"]

def perform : Command → Outcome
  | .run => setup.run
  | .list => setup.list
  | .graph => setup.graph
  | .ranks json => setup.ranks json
  | .validate => setup.validate

end Setup

def workingDirectory (fs : FileSystem) : Path :=
  Path.slash :: Text.joinFields Path.slash fs.cwd

def configContext : String := "Error reading config file"

/-- How the program is used. -/
def usage : String := Text.unlines [
  "Usage: modgraph [OPTIONS] [COMMAND]",
  "",
  "Commands:",
  "  run       Write the report and the drawing (default)",
  "  list      Print the report",
  "  graph     Print the drawing",
  "  ranks     Print the rank of every module, with --json as a document",
  "  validate  Try every file and tell what is wrong",
  "",
  "Options:",
  "  -c, --config <PATH>  Path of the configuration file",
  "  -v, --verbose        Log all events",
  "  -h, --help           Print this text",
  "  -V, --version        Print the version"]

def versionLine : String := "modgraph 0.1.0"

def Request.perform (fs : FileSystem) (medium : Medium) (colours : Bool) : Request → Outcome
  | .help => .success fs usage
  | .version => .success fs (Text.unlines [versionLine])
  | .command options asked =>
      Outcome.ofLogged fs (Config.load fs options.config (workingDirectory fs))
        (fun error => configContext :: error.chain)
        fun config => Setup.perform ⟨fs, medium, config, colours⟩ asked

def Request.isVerbose : Request → Bool
  | .command options _ => options.verbose
  | _ => false

/-- Run the program. A usage error leaves everything as it was. -/
def run (fs : FileSystem) (medium : Medium) (colours : Bool) (arguments : List (List UInt8)) :
    Outcome :=
  match request? arguments with
  | none => ⟨fs, 2, "", [], []⟩
  | some request =>
      let outcome := request.perform fs medium colours
      { outcome with events := outcome.events.filter (·.isShown request.isVerbose) }

/-- A text whose further lines are indented. -/
def indented (indent : Nat) (text : String) : String :=
  ("\n" ++ String.ofList (List.replicate indent ' ')).intercalate (text.splitOn "\n")

/-- The lines that tell an error and its causes. Several causes are numbered. -/
def errorText : List String → String
  | [] => ""
  | [message] => "Error: " ++ message
  | [message, cause] => "Error: " ++ message ++ "\n\nCaused by:\n    " ++ indented 4 cause
  | message :: causes =>
      "Error: " ++ message ++ "\n\nCaused by:"
        ++ String.join (causes.zipIdx.map fun (cause, n) =>
            "\n" ++ Terminal.alignRight 5 n ++ ": " ++ indented 7 cause)

end OberonImports.CommandLine
