import OberonImports.Graph.Rank
import OberonImports.Scan.Summary
import OberonImports.Terminal.Style

/-!
# Messages for the terminal

What a run tells on the terminal, as lines. A message about nothing has no lines.
-/

namespace OberonImports.Terminal

def rule (width : Nat) : String := String.ofList (List.replicate width '─')

/-- A number to the right of a column of the given width. -/
def alignRight (width n : Nat) : String :=
  let digits := toString n
  String.ofList (List.replicate (width - digits.length) ' ') ++ digits

def success (colours : Bool) (text : String) : List String :=
  [paint colours (.boldColour .green) "✓" ++ " " ++ paint colours (.ofColour .green) text]

def failure (colours : Bool) (text : String) : List String :=
  [paint colours (.boldColour .red) "✗" ++ " " ++ paint colours (.ofColour .red) text]

def info (colours : Bool) (text : String) : List String :=
  ["  " ++ paint colours (.ofColour .blue) "→" ++ " " ++ text]

/-- The line of a file that yielded no module. -/
def failureLine (colours : Bool) (failure : Failure) : String :=
  "  " ++ paint colours (.ofColour .yellow) "!" ++ " " ++ paint colours .strong failure.path.display
    ++ " " ++ paint colours .faint failure.error.message

/-- The files that yielded no module. -/
def failures (colours : Bool) : List Failure → List String
  | [] => []
  | failures =>
      ["", paint colours (.boldColour .yellow)
          ("Unparsed Files (" ++ toString failures.length ++ ")"), rule 60]
      ++ failures.map (failureLine colours) ++ [rule 60]

def rankLine (colours : Bool) (rank : Nat) (names : List String) : String :=
  "  " ++ paint colours .strong (alignRight 3 rank) ++ " " ++ ", ".intercalate names

/-- The ranks with their names, highest first. -/
def ranks (colours : Bool) (ranks : Ranks) : List String :=
  ["", paint colours (.boldColour .cyan) "Module Ranks", rule 50]
  ++ ranks.levels.reverse.map (fun (rank, names) => rankLine colours rank names) ++ [""]

def cycleLine (colours : Bool) (names : List String) : String :=
  "  " ++ paint colours (.ofColour .yellow) "↻" ++ " " ++ " ↔ ".intercalate names

def cycles (colours : Bool) : List (List String) → List String
  | [] => []
  | cycles =>
      [paint colours (.boldColour .yellow) ("Import Cycles (" ++ toString cycles.length ++ ")")]
      ++ cycles.map (cycleLine colours) ++ [""]

def unresolved (colours : Bool) : List String → List String
  | [] => []
  | names =>
      ["  " ++ paint colours (.ofColour .yellow) "?" ++ " " ++ toString names.length
        ++ " undeclared import(s): " ++ paint colours .faint (", ".intercalate names)]

end OberonImports.Terminal
