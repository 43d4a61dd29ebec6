import OberonImports.FileSystem.Walk
import OberonImports.Log.Logged

/-!
# Scans

A scan extracts a module from every module file that a walk reaches, in the order of the walk. A
file that yields no module ends the scan or is recorded as a failure, as the policy says. A walk
that ends early ends the scan behind the files that it reached.
-/

namespace OberonImports

/-- A file that yielded no module. -/
structure Failure where
  path : Path
  error : ExtractError
  deriving Repr, DecidableEq

/-- What a scan found: modules and failures, each in the order of the walk. -/
structure Summary where
  modules : List Module
  failures : List Failure
  deriving Repr, DecidableEq, Inhabited

namespace Summary

def empty : Summary := ⟨[], []⟩

def isClean (summary : Summary) : Bool := summary.failures.isEmpty

/-- The number of files that were tried. -/
def filesSeen (summary : Summary) : Nat := summary.modules.length + summary.failures.length

def addModule (summary : Summary) (module : Module) : Summary :=
  { summary with modules := summary.modules ++ [module] }

def addFailure (summary : Summary) (failure : Failure) : Summary :=
  { summary with failures := summary.failures ++ [failure] }

end Summary

/-- Why a scan fails: the walk ended early, or a file yielded no module and the policy is to
stop. -/
inductive ScanError where
  | walk (root : Path) (error : FileSystem.WalkError)
  | module (path : Path) (error : ExtractError)
  deriving Repr, DecidableEq

def ScanError.message : ScanError → String
  | walk root error => "error walking the path " ++ root.display ++ ": " ++ error.message
  | module path error => "error parsing module file " ++ path.display ++ ": " ++ error.message

namespace FileSystem

/-- The module files that a walk from a path reaches. -/
def candidates (fs : FileSystem) (root : Path) : List Path :=
  ((fs.walk root).files fs).filter Path.isModuleFile

/-- Extract modules from files one after the other. -/
def scanFiles (fs : FileSystem) (policy : ErrorPolicy) (summary : Summary) :
    List Path → Logged ScanError Summary
  | [] => pure summary
  | path :: paths => do
      Logged.log [.parsing path]
      match fs.extract path, policy with
      | .ok module, _ => fs.scanFiles policy (summary.addModule module) paths
      | .error error, .abort => Logged.fail (.module path error)
      | .error error, .collect =>
          Logged.log [.skipping path error]
          fs.scanFiles policy (summary.addFailure ⟨path, error⟩) paths

def scan (fs : FileSystem) (root : Path) (policy : ErrorPolicy) : Logged ScanError Summary := do
  Logged.log [.scanning root policy]
  let summary ← fs.scanFiles policy .empty (fs.candidates root)
  match (fs.walk root).stop with
  | some error => Logged.fail (.walk root error)
  | none =>
      Logged.log [.scanned summary.modules.length summary.failures.length]
      pure summary

end FileSystem

end OberonImports
