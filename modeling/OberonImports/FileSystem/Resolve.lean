import OberonImports.FileSystem.Basic

/-!
# Where a path leads

A path is followed name by name, from the root if it starts with a slash, else from the working
directory. Every step needs a directory to stand in, also a step to an empty name or `.`, which stay
there, and one to `..`, which goes up. A link is replaced by its target. At most 40 links are
followed. Paths and the names in them must not be too long.
-/

namespace OberonImports.FileSystem

/-- The names of a path, empty ones included. -/
def pathNames (path : Path) : List FileName := Text.fields Path.slash path

/-- What a path is resolved for: to find what exists, or to write a file that may not exist yet. -/
inductive Purpose where
  | find
  | write
  deriving Repr, DecidableEq

/-- The greatest number of octets in a name. -/
def maxNameSize : Nat := 255

/-- The greatest number of octets in a path. -/
def maxPathSize : Nat := 4095

/-- Follow names from a location. A path to write to may lack its last entry, but must not end in
a slash. -/
def followNames (fs : FileSystem) (purpose : Purpose) (links : Nat) (base : Location) :
    List FileName → Except OsError Location
  | [] => .ok base
  | name :: names =>
      if fs.entry? base ≠ some .directory then .error .notDirectory
      else if Path.IsIdle name then fs.followNames purpose links base names
      else if name = Path.upward then fs.followNames purpose links base.dropLast names
      else if purpose = .write ∧ names ≠ [] ∧ names.all (· = []) then .error .isDirectory
      else if maxNameSize < name.length then .error .nameTooLong
      else
        match fs.entry? (base ++ [name]) with
        | none =>
            if purpose = .write ∧ names = [] then .ok (base ++ [name]) else .error .notFound
        | some (.link target) =>
            match links with
            | 0 => .error .tooManyLinks
            | links + 1 =>
                fs.followNames purpose links (if Path.isAbsolute target then [] else base)
                  (pathNames target ++ names)
        | some _ => fs.followNames purpose links (base ++ [name]) names
termination_by names => (links, names.length)

def maxLinks : Nat := 40

/-- The location that a path leads to. -/
def resolveFor (fs : FileSystem) (purpose : Purpose) (path : Path) : Except OsError Location :=
  if path.contains 0 then .error .nulByte
  else if path = [] then .error .notFound
  else if maxPathSize < path.length then .error .nameTooLong
  else
    let start := if Path.isAbsolute path then [] else fs.cwd
    fs.followNames purpose maxLinks start (pathNames path)

/-- The location of what exists at a path. -/
def resolve (fs : FileSystem) (path : Path) : Except OsError Location :=
  fs.resolveFor .find path

def isFile (fs : FileSystem) (path : Path) : Bool :=
  match fs.resolve path with
  | .error _ => false
  | .ok location =>
      match fs.entry? location with
      | some (.file _) => true
      | _ => false

def read (fs : FileSystem) (path : Path) : Except OsError (List UInt8) :=
  match fs.resolve path with
  | .error error => .error error
  | .ok location =>
      match fs.entry? location with
      | some (.file bytes) => .ok bytes
      | some .directory => .error .isDirectory
      | _ => .error .notFound

/-- Put an entry at the end of a way from a location. Directories that are missing on the way are
made. -/
def add (fs : FileSystem) (base : Location) : List FileName → Entry → FileSystem
  | [], _ => fs
  | [name], entry => fs.set (base ++ [name]) entry
  | name :: names, entry =>
      match fs.followNames .find maxLinks base [name] with
      | .ok location => fs.add location names entry
      | .error _ => (fs.set (base ++ [name]) .directory).add (base ++ [name]) names entry

end OberonImports.FileSystem
