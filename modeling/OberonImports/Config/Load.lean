import OberonImports.Config.OfYaml
import OberonImports.Log.Logged

/-!
# Loading a configuration

A configuration is loaded from a file that is named, or from `config.yaml` in a directory or else in
the parent of the directory. Relative paths in the file start at the directory that holds it.
-/

namespace OberonImports

/-- Why the text of a file cannot be had. -/
inductive TextError where
  | os (error : OsError)
  | notUtf8
  deriving Repr, DecidableEq

def TextError.message : TextError → String
  | os error => error.message
  | notUtf8 => "stream did not contain valid UTF-8"

/-- The text of the file that a path leads to, which has to be UTF-8. -/
def FileSystem.readText (fs : FileSystem) (path : Path) : Except TextError String :=
  match fs.read path with
  | .error error => .error (.os error)
  | .ok bytes =>
      match Text.Utf8.decode? bytes with
      | none => .error .notUtf8
      | some text => .ok text

/-- Why no configuration can be loaded. -/
inductive ConfigError where
  | missing (path : Path)
  | undiscovered (directory : Path)
  | unreadable (path : Path) (error : TextError)
  | invalid (path : Path) (error : ConfigTextError)
  deriving Repr, DecidableEq

namespace Config

def fileName : String := "config.yaml"

/-- The paths at which a configuration is looked for. -/
def candidates (directory : Path) : List Path :=
  directory.join (Path.ofText fileName) ::
    directory.parent?.toList.map fun parent => parent.join (Path.ofText fileName)

def discover (fs : FileSystem) (directory : Path) : Except ConfigError Path :=
  match (candidates directory).find? fs.isFile with
  | some path => .ok path
  | none => .error (.undiscovered directory)

/-- The configuration file that is meant: the named one, or that of a directory. -/
def locate (fs : FileSystem) (named : Option Path) (directory : Path) :
    Except ConfigError Path :=
  match named with
  | some path => if fs.isFile path then .ok path else .error (.missing path)
  | none => discover fs directory

/-- Where relative paths in a configuration file start: at the directory in its path, or at the
given directory if its path is a mere name. -/
def base (path directory : Path) : Path :=
  match path.parent? with
  | none | some [] => directory
  | some parent => parent

/-- The configuration in the file at a path, with its paths as they are written. -/
def readFile (fs : FileSystem) (path : Path) : Except ConfigError Config :=
  match fs.readText path with
  | .error error => .error (.unreadable path error)
  | .ok text => (Config.ofText text).mapError (.invalid path)

/-- Load the named configuration file, or that of a directory. -/
def load (fs : FileSystem) (named : Option Path) (directory : Path) :
    Logged ConfigError Config := do
  let path ← Logged.ofExcept (locate fs named directory)
  Logged.log [.loadingConfig path]
  let config ← Logged.ofExcept (readFile fs path)
  return config.resolvePaths (base path directory)

end Config

/-- The texts of an error and of its causes, outermost first. -/
def ConfigError.chain : ConfigError → List String
  | missing path => ["Config not found: '" ++ path.display ++ "'"]
  | undiscovered directory =>
      ["Config not found: no " ++ Config.fileName ++ " in '" ++ directory.display
        ++ "' or its parent. Create one or pass --config"]
  | unreadable path error => ["Failed to read config file: " ++ path.display, error.message]
  | invalid path error => ("Invalid config file: " ++ path.display) :: error.chain

end OberonImports
