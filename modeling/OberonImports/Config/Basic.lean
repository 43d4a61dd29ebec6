import OberonImports.Config.Policy
import OberonImports.Graph.Dot
import OberonImports.Path

/-!
# Configurations

What a run is told: where the module files are, where its two outputs go, how the graph is drawn,
and its policies. All but the place of the module files have defaults.
-/

namespace OberonImports

structure Config where
  testDir : Path
  outputTxt : Path
  outputDot : Path
  layout : Layout
  rankdir : Option String
  size : Option String
  unresolved : UnresolvedPolicy
  duplicates : DuplicatePolicy
  onError : ErrorPolicy
  deriving Repr, DecidableEq, Inhabited

namespace Config

def ofTestDir (testDir : Path) : Config where
  testDir := testDir
  outputTxt := Path.ofText "output-txt"
  outputDot := Path.ofText "modules_graph.dot"
  layout := .rank
  rankdir := none
  size := none
  unresolved := .drop
  duplicates := .reject
  onError := .abort

def dotOptions (config : Config) : Graph.DotOptions := ⟨config.layout, config.rankdir, config.size⟩

/-- The configuration with its relative paths starting at `base`. -/
def resolvePaths (config : Config) (base : Path) : Config :=
  { config with
    testDir := base.join config.testDir
    outputTxt := base.join config.outputTxt
    outputDot := base.join config.outputDot }

end Config

end OberonImports
