import OberonImports.FileSystem.OsError
import OberonImports.Path

/-!
# File systems

A file system is a set of entries, each at its own location: directories, files with their bytes,
and links with the path that they lead to. The root is a directory without an entry of its own.
Directories do not list what they hold: it is what has its location one name below theirs. Names
are bytes, and none of them has to be UTF-8.
-/

namespace OberonImports

/-- The names on the way from the root to an entry. -/
abbrev Location := List FileName

/-- What stands at a location. -/
inductive Entry where
  | directory
  | file (bytes : List UInt8)
  | link (target : Path)
  deriving Repr, DecidableEq

/-- Entries at distinct locations, and the directory at which relative paths start. -/
structure FileSystem where
  entries : List (Location × Entry)
  distinct : (entries.map (·.1)).Nodup
  cwd : Location

namespace FileSystem

def empty : FileSystem := ⟨[], by simp, []⟩

instance : Inhabited FileSystem := ⟨empty⟩

def entry? (fs : FileSystem) : Location → Option Entry
  | [] => some .directory
  | location => fs.entries.lookup location

def directories (fs : FileSystem) : List Location :=
  [] :: (fs.entries.filter (·.2 = .directory)).map (·.1)

/-- The names of what a directory holds, in ascending order. -/
def children (fs : FileSystem) (directory : Location) : List FileName :=
  (fs.entries.filterMap fun (location, _) =>
    if location.dropLast = directory then location.getLast? else none).mergeSort (· ≤ ·)

def erase (fs : FileSystem) (location : Location) : FileSystem :=
  { fs with
    entries := fs.entries.filter (·.1 ≠ location)
    distinct := (List.filter_sublist.map _).nodup fs.distinct }

/-- The file system with an entry put at a location, in place of the one that stood there. -/
def set (fs : FileSystem) (location : Location) (entry : Entry) : FileSystem :=
  { fs with
    entries := (fs.erase location).entries ++ [(location, entry)]
    distinct := by
      have h := (fs.erase location).distinct
      simp only [List.map_append, List.map_cons, List.map_nil]
      refine List.nodup_append.2 ⟨h, by simp, ?_⟩
      intro other hother last hlast
      simp only [erase, List.mem_map, List.mem_filter] at hother
      obtain ⟨pair, ⟨_, hpair⟩, rfl⟩ := hother
      simp_all }

/-- The regular files with their contents, as they stand in the entries. -/
def files (fs : FileSystem) : List (Location × List UInt8) :=
  fs.entries.filterMap fun
    | (location, .file bytes) => some (location, bytes)
    | _ => none

/-- The files that differ from those of an earlier state, with their contents. -/
def changedSince (fs earlier : FileSystem) : List (Location × List UInt8) :=
  fs.files.filter fun (location, bytes) => earlier.entry? location ≠ some (.file bytes)

end FileSystem

end OberonImports
