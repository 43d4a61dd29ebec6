import OberonImports.FileSystem.Resolve

/-!
# Writing files

A file is given a new content in two steps: it is opened, which makes it if there is none and
empties it if there is one, and then the content is written to it. Both can fail although the path
leads to a file, and what the medium does not take is lost: the file holds the beginning of the
content that was written.
-/

namespace OberonImports

/-- Why a file does not take a content of the given size. It cannot be opened, or it takes fewer
bytes than there are. -/
inductive WriteFault (size : Nat) where
  | unopened (error : OsError)
  | brokenOff (taken : Fin size) (error : OsError)
  deriving Repr, DecidableEq

/-- What files are kept on. It may have a fault when a content is written to a location. -/
structure Medium where
  fault? : FileSystem → Location → (content : List UInt8) → Option (WriteFault content.length)

/-- The medium that takes everything. -/
def Medium.faultless : Medium := ⟨fun _ _ _ => none⟩

/-- The medium on which a file has room for a number of bytes, and no space is left behind them. -/
def Medium.ofCapacity (capacity : Nat) : Medium where
  fault? := fun _ _ content =>
    if hroom : capacity < content.length then some (.brokenOff ⟨capacity, hroom⟩ (.system 28))
    else none

/-- What writing a file leaves behind. -/
structure Written where
  fs : FileSystem
  error? : Option OsError

/-- Give the file that a path leads to a new content, and make it if there is none. -/
def FileSystem.write (fs : FileSystem) (medium : Medium) (path : Path) (content : List UInt8) :
    Written :=
  match fs.resolveFor .write path with
  | .error error => ⟨fs, some error⟩
  | .ok location =>
      if fs.entry? location = some .directory then ⟨fs, some .isDirectory⟩
      else
        match medium.fault? fs location content with
        | some (.unopened error) => ⟨fs, some error⟩
        | some (.brokenOff taken error) =>
            ⟨fs.set location (.file (content.take taken)), some error⟩
        | none => ⟨fs.set location (.file content), none⟩

end OberonImports
