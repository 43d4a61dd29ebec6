import OberonImports.FileSystem.Resolve

/-!
# Walks

A walk visits what can be reached from a path, each directory before what it holds and in ascending
order of names. Links are followed, and what they lead to is visited under the name of the link. A
link to a directory that the walk stands in ends the walk, and so does a link that leads nowhere.
Directories are opened by their paths, so one whose path has grown too long ends the walk too.

A walk comes to an end because every link that it follows into a directory leads to one that it does
not stand in yet, and between two such links it only goes deeper.
-/

namespace OberonImports.FileSystem

/-- Something that a walk visits: the path by which it was reached, and where it stands. -/
structure Visit where
  path : Path
  location : Location
  deriving Repr, DecidableEq

/-- Why a walk ends early. -/
inductive WalkError where
  | os (path : Path) (error : OsError)
  | loop (link ancestor : Path)
  deriving Repr, DecidableEq

def WalkError.message : WalkError → String
  | os path error => "IO error for operation on " ++ path.display ++ ": " ++ error.message
  | loop link ancestor =>
    "File system loop found: " ++ link.display ++ " points to an ancestor " ++ ancestor.display

/-- The visits of a walk in order, and what ended it early. -/
structure Walk where
  visits : List Visit
  stop : Option WalkError
  deriving Repr, DecidableEq

namespace Walk

def nothing : Walk := ⟨[], none⟩

def stopped (error : WalkError) : Walk := ⟨[], some error⟩

def visit (visit : Visit) (walk : Walk) : Walk := { walk with visits := visit :: walk.visits }

/-- One walk after the other, unless the first ended early. -/
@[macro_inline] def andThen (first second : Walk) : Walk :=
  match first.stop with
  | some _ => first
  | none => ⟨first.visits ++ second.visits, second.stop⟩

end Walk

/-- The number of names in the longest location of a directory. -/
def depth (fs : FileSystem) : Nat := (fs.directories.map List.length).foldr max 0

/-- The directories that none of the visits stands at. -/
def unvisited (fs : FileSystem) (visits : List Visit) : List Location :=
  fs.directories.filter fun location => visits.all (·.location ≠ location)

theorem mem_directories {fs : FileSystem} {location : Location} :
    location ∈ fs.directories ↔ fs.entry? location = some .directory := by
  cases location with
  | nil => simp [directories, entry?]
  | cons name names =>
    have hlookup : ∀ {entries : List (Location × Entry)}, (entries.map (·.1)).Nodup →
        ((name :: names, Entry.directory) ∈ entries ↔
          entries.lookup (name :: names) = some .directory) := by
      intro entries hdistinct
      induction entries with
      | nil => simp
      | cons pair entries ih =>
        obtain ⟨location, entry⟩ := pair
        simp only [List.map_cons, List.nodup_cons] at hdistinct
        by_cases hlocation : name :: names = location
        · subst hlocation
          have : (name :: names, Entry.directory) ∉ entries := fun hmem =>
            hdistinct.1 (List.mem_map_of_mem (f := (·.1)) hmem)
          simp [this, eq_comm]
        · have : (name :: names == location) = false := by simpa using hlocation
          simp [List.lookup_cons, this, ← ih hdistinct.2, hlocation]
    simp [directories, entry?, hlookup fs.distinct]

theorem length_le_depth {fs : FileSystem} {location : Location}
    (h : fs.entry? location = some .directory) : location.length ≤ fs.depth := by
  have hmem := List.mem_map_of_mem (f := List.length) (mem_directories.2 h)
  unfold depth
  generalize fs.directories.map List.length = lengths at hmem
  induction lengths with
  | nil => simp at hmem
  | cons n lengths ih =>
    simp only [List.foldr_cons]
    rcases List.mem_cons.1 hmem with heq | hrest
    · omega
    · have := ih hrest
      omega

/-- Standing in one more directory leaves no more of them to enter. -/
theorem length_unvisited_cons_le (fs : FileSystem) (visit : Visit) (visits : List Visit) :
    (fs.unvisited (visit :: visits)).length ≤ (fs.unvisited visits).length := by
  unfold unvisited
  rw [← List.countP_eq_length_filter, ← List.countP_eq_length_filter]
  refine List.countP_mono_left fun location _ h => ?_
  simp only [List.all_cons, Bool.and_eq_true] at h
  exact h.2

/-- Standing in a directory for the first time leaves fewer of them to enter. -/
theorem length_unvisited_cons_lt {fs : FileSystem} {visit : Visit} {visits : List Visit}
    (hentry : fs.entry? visit.location = some .directory)
    (hnew : visits.find? (·.location = visit.location) = none) :
    (fs.unvisited (visit :: visits)).length < (fs.unvisited visits).length := by
  have hsplit : fs.unvisited (visit :: visits)
      = (fs.unvisited visits).filter (visit.location ≠ ·) := by
    simp [unvisited, List.filter_filter]
  have hmem : visit.location ∈ fs.unvisited visits := by
    refine List.mem_filter.2 ⟨mem_directories.2 hentry, ?_⟩
    simpa using hnew
  rw [hsplit]
  exact List.length_filter_lt_length_iff_exists.2 ⟨_, hmem, by simp⟩

/-- Walk through what the directory of a visit holds under the given names. The walk stands in this
directory and in those of `outer`, innermost first. -/
def walkNames (fs : FileSystem) (directory : Visit) (outer : List Visit) : List FileName → Walk
  | [] => .nothing
  | name :: names =>
      let path := Path.join directory.path name
      let location := directory.location ++ [name]
      match _h : fs.entry? location with
      | none => fs.walkNames directory outer names
      | some (.file _) => .visit ⟨path, location⟩ (fs.walkNames directory outer names)
      | some .directory =>
          .visit ⟨path, location⟩ <|
            match fs.resolve path with
            | .error error => .stopped (.os path error)
            | .ok _ =>
                (fs.walkNames ⟨path, location⟩ (directory :: outer) (fs.children location)).andThen
                  (fs.walkNames directory outer names)
      | some (.link _) =>
          match fs.resolve path with
          | .error error => .stopped (.os path error)
          | .ok target =>
              if _h : fs.entry? target = some .directory then
                match _h : (directory :: outer).find? (·.location = target) with
                | some ancestor => .stopped (.loop path ancestor.path)
                | none =>
                    .visit ⟨path, target⟩
                      ((fs.walkNames ⟨path, target⟩ (directory :: outer)
                        (fs.children target)).andThen (fs.walkNames directory outer names))
              else .visit ⟨path, target⟩ (fs.walkNames directory outer names)
termination_by names =>
  ((fs.unvisited (directory :: outer)).length, fs.depth - directory.location.length, names.length)
decreasing_by
  · exact .right _ (.right _ (by simp))
  · exact .right _ (.right _ (by simp))
  · have hdepth := length_le_depth _h
    rw [List.length_append, List.length_singleton] at hdepth
    rcases Nat.lt_or_eq_of_le
      (fs.length_unvisited_cons_le ⟨path, location⟩ (directory :: outer)) with hlt | heq
    · exact .left _ _ hlt
    · rw [heq]
      refine .right _ (.left _ _ ?_)
      simp only [List.length_append, List.length_singleton]
      omega
  · exact .right _ (.right _ (by simp))
  · exact .left _ _ (length_unvisited_cons_lt (by assumption) (by assumption))
  · exact .right _ (.right _ (by simp))
  · exact .right _ (.right _ (by simp))

def walk (fs : FileSystem) (root : Path) : Walk :=
  match fs.resolve root with
  | .error error => .stopped (.os root error)
  | .ok location =>
      .visit ⟨root, location⟩
        (if fs.entry? location = some .directory then
          fs.walkNames ⟨root, location⟩ [] (fs.children location)
        else .nothing)

/-- The paths by which a walk reaches regular files. -/
def Walk.files (fs : FileSystem) (walk : Walk) : List Path :=
  (walk.visits.filter fun visit =>
    match fs.entry? visit.location with
    | some (.file _) => true
    | _ => false).map (·.path)

end OberonImports.FileSystem
