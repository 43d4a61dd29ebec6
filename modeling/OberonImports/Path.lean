import OberonImports.Text.Split
import OberonImports.Text.Utf8

/-!
# Paths

A path is a sequence of bytes, which need not be UTF-8. It is kept as it was written: joining only
puts paths together, and nothing is normalised. Names stand between slashes. Empty names and `.`
name nothing, except for a `.` at the very front, which together with a leading slash is the anchor
of a path. Taking the last name or the parent of a path passes over names that name nothing.
-/

namespace OberonImports

/-- A path as it is written. -/
abbrev Path := List UInt8

/-- A name in a path. -/
abbrev FileName := List UInt8

namespace Path

def slash : UInt8 := 0x2F

def dot : UInt8 := 0x2E

@[simp] theorem dot_ne_slash : dot ≠ slash := by decide

/-- The name that leads upwards. -/
def upward : FileName := [dot, dot]

/-- A name that names nothing. -/
def IsIdle (name : FileName) : Prop := name = [] ∨ name = [dot]

instance (name : FileName) : Decidable (IsIdle name) := inferInstanceAs (Decidable (_ ∨ _))

def ofText (text : String) : Path := Text.Utf8.encode text

instance : Coe String Path := ⟨ofText⟩

/-- The text of a path that is UTF-8. -/
def text? (path : Path) : Option String := Text.Utf8.decode? path

theorem text?_eq_some {path : Path} {text : String} :
    text? path = some text ↔ ofText text = path :=
  Text.Utf8.decode?_eq_some

@[simp] theorem text?_ofText (text : String) : text? (ofText text) = some text :=
  Text.Utf8.decode?_encode text

@[simp] theorem ofText_eq_nil {text : String} : ofText text = [] ↔ text = "" :=
  Text.Utf8.encode_eq_nil

/-- A path as messages show it. -/
def display (path : Path) : String := String.ofList (Text.Utf8.decodeLossy path)

def isAbsolute (path : Path) : Bool := path.head? = some slash

/-- The path that starts at `base` and goes on with `path`. An absolute path replaces the base, and
an empty base adds nothing. -/
def join (base path : Path) : Path :=
  if isAbsolute path || base.isEmpty then path
  else if base.getLast? = some slash then base ++ path
  else base ++ slash :: path

/-- The anchor of a path, a leading slash or a leading `.` that is a whole name, and what follows
it. -/
def anchorAndBody : Path → Path × Path
  | [] => ([], [])
  | c :: rest =>
      if c = slash ∨ (c = dot ∧ (rest = [] ∨ rest.head? = some slash)) then ([c], rest)
      else ([], c :: rest)

/-- The names, last first, from the last one on that names something. -/
def dropIdle (names : List FileName) : List FileName := names.dropWhile fun name => IsIdle name

/-- The last name of a path, unless it leads upwards or is missing. -/
def lastName? (path : Path) : Option FileName :=
  match dropIdle (Text.fields slash (anchorAndBody path).2).reverse with
  | [] => none
  | name :: _ => if name = upward then none else some name

/-- The path without its last name. The root and the empty path have none; the parent of a path of
one name is the empty path. -/
def parent? (path : Path) : Option Path :=
  let (anchor, body) := anchorAndBody path
  match dropIdle (Text.fields slash body).reverse with
  | [] => if anchor = [dot] then some [] else none
  | _ :: upper => some (anchor ++ Text.joinFields slash (dropIdle upper).reverse)

/-- Whether a name is that of a module file. It has to be UTF-8. -/
def isModuleName (name : FileName) : Bool :=
  match text? name with
  | none => false
  | some text =>
      ['.', 'M', 'o', 'd'].isSuffixOf text.toList || ['.', 'm', 'o', 'd'].isSuffixOf text.toList

def isModuleFile (path : Path) : Bool :=
  match lastName? path with
  | none => false
  | some name => isModuleName name

end Path

end OberonImports
