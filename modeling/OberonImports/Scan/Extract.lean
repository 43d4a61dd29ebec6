import OberonImports.FileSystem.Resolve
import OberonImports.Module

/-!
# Extracting a module from a file

A file is decoded leniently, so that no byte in it can make the extraction fail, and then read as a
source text. The module keeps the path of the file.
-/

namespace OberonImports

/-- Why a file yields no module. -/
inductive ExtractError where
  | nameNotFound
  | read (path : Path) (error : OsError)
  deriving Repr, DecidableEq

def ExtractError.message : ExtractError → String
  | nameNotFound => "module name not found"
  | read path error => "failed to read " ++ path.display ++ ": " ++ error.message

/-- The module that the bytes of a file declare. -/
def Module.ofBytes? (bytes : List UInt8) : Option Module :=
  Module.ofText? (String.ofList (Text.Utf8.decodeLossy bytes))

def FileSystem.extract (fs : FileSystem) (path : Path) : Except ExtractError Module :=
  match fs.read path with
  | .error error => .error (.read path error)
  | .ok bytes =>
      match Module.ofBytes? bytes with
      | none => .error .nameNotFound
      | some module => .ok { module with source := some path }

end OberonImports
