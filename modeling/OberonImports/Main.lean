import OberonImports.CommandLine.Outcome

/-!
# The program

The program sees the files that standard input lists, one path a line; a path that ends in a slash
is a directory. It prints what a run prints, writes the log and the error to standard error, and the
files that the run changed to their places.
-/

namespace OberonImports

/-- The location of a path that starts at a working directory. -/
def locationOf (cwd path : Path) : Location :=
  (FileSystem.pathNames (cwd.join path)).filter fun name => ¬ Path.IsIdle name

/-- The file system with one more listed path. -/
def addListed (cwd : Path) (fs : FileSystem) (path : String) : IO FileSystem := do
  let location := locationOf cwd (.ofText path)
  if (Path.ofText path).getLast? = some Path.slash then
    return fs.add [] location .directory
  else
    let bytes ← IO.FS.readBinFile path
    return fs.add [] location (.file bytes.toList)

def listedFileSystem (cwd : Path) (paths : List String) : IO FileSystem := do
  let location := locationOf cwd []
  let start := { FileSystem.empty.add [] location .directory with cwd := location }
  (paths.filter (· ≠ "")).foldlM (addListed cwd) start

/-- Write a file to its place. -/
def writeChanged (location : Location) (bytes : List UInt8) : IO Unit :=
  IO.FS.writeBinFile ("/" ++ "/".intercalate (location.map Path.display)) ⟨bytes.toArray⟩

end OberonImports

open OberonImports in
def main (arguments : List String) : IO UInt32 := do
  let cwd := Path.ofText (toString (← IO.currentDir))
  let fs ← listedFileSystem cwd (← (← IO.getStdin).lines).toList
  let stdout ← IO.getStdout
  let colours := (← stdout.isTty) && (← IO.getEnv "NO_COLOR").isNone
  let outcome := CommandLine.run fs .faultless colours (arguments.map Text.Utf8.encode)
  for (location, bytes) in outcome.fs.changedSince fs do
    writeChanged location bytes
  stdout.putStr outcome.output
  for event in outcome.events do
    IO.eprintln event.line
  unless outcome.error.isEmpty do
    IO.eprintln (CommandLine.errorText outcome.error)
  return UInt32.ofNat outcome.status
