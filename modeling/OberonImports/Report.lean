import OberonImports.Graph.Component
import OberonImports.Graph.Rank
import OberonImports.Json
import OberonImports.Text.Lines

/-!
# Reports

The report lists the declared modules in order of their names. A module is a block of lines: its
name and a colon, one line for each import behind a tab, and a separator. The rank document gives
ranks, levels and cycles of a graph as JSON.
-/

namespace OberonImports

def separator : String := String.ofList (List.replicate 47 '=')

/-- The lines of the block of a module. -/
def Module.reportLines (module : Module) : List String :=
  [module.name ++ ":"] ++ module.imports.map ("\t" ++ ·) ++ [separator]

/-- The block of a module, each line ended by a line feed. -/
def Module.report (module : Module) : String :=
  Text.unlines module.reportLines

def Registry.report (registry : Registry) : String :=
  String.join (registry.modules.map Module.report)

/-- The rank document of a graph with these ranks and cycles. -/
def Ranks.document (ranks : Ranks) (cycles : List (List String)) : Json :=
  .obj [
    ("ranks", .obj (ranks.byName.map fun (name, rank) => (name, .num rank))),
    ("levels", .obj (ranks.levels.map fun (rank, names) =>
      (toString rank, .arr (names.map .str)))),
    ("max_rank", .num ranks.maxRank),
    ("cycles", .arr (cycles.map fun names => .arr (names.map .str)))]

end OberonImports
