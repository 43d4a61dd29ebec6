import OberonImports.Proofs.FileSystem.Reach
import OberonImports.Proofs.FileSystem.Removal

/-!
# Trees without links

In a directory tree without links a walk finds each thing right where its path says, below its root.
So removing files takes their visits out of the walk and changes nothing else: the other visits keep
their order, and if the walk ends early, it does so at the same place and for the same reason.
-/

namespace OberonImports.FileSystem

variable {fs rest : FileSystem} {gone : List Location} {root location : Location} {name : FileName}
  {names : List FileName} {directory visit : Visit} {outer : List Visit} {walk innerWalk : Walk}

/-- A directory below which there is no link and every name is one that files can have. -/
structure IsTree (fs : FileSystem) (root : Location) : Prop where
  directory : fs.entry? root = some .directory
  no_link : ∀ place target, fs.entry? (root ++ place) ≠ some (.link target)
  named : ∀ place entry, fs.entry? (root ++ place) = some entry → ∀ name ∈ place, IsFileName name

/-- A directory of a file system without links and with proper names only is such a tree. -/
theorem isTree_of_entries (hdirectory : fs.entry? root = some .directory)
    (hentries : ∀ pair ∈ fs.entries, (∀ target, pair.2 ≠ .link target) ∧
      ∀ name ∈ pair.1, IsFileName name) : fs.IsTree root := by
  have hmem : ∀ location entry, fs.entry? location = some entry →
      location = [] ∧ entry = .directory ∨ (location, entry) ∈ fs.entries := by
    intro location entry hentry
    cases location with
    | nil => exact .inl ⟨rfl, (Option.some.inj hentry).symm⟩
    | cons name names => exact .inr ((Lookup.lookup_eq_some fs.distinct).mp hentry)
  refine ⟨hdirectory, ?_, ?_⟩
  · intro place target hlink
    rcases hmem _ _ hlink with ⟨-, hentry⟩ | hpair
    · cases hentry
    · exact (hentries _ hpair).1 target rfl
  · intro place entry hentry name hname
    rcases hmem _ _ hentry with ⟨hroot, -⟩ | hpair
    · rw [(List.append_eq_nil_iff.mp hroot).2] at hname
      cases hname
    · exact (hentries _ hpair).2 name (List.mem_append_right _ hname)

/-- A visit to a directory of a tree that is found by its path. -/
structure OpenIn (fs : FileSystem) (root : Location) (visit : Visit) : Prop where
  below : ∃ place, visit.location = root ++ place
  directory : fs.entry? visit.location = some .directory
  found : fs.resolve visit.path = .ok visit.location

namespace OpenIn

variable {entry : Entry}

/-- Something in an open directory of a tree is no link and has a proper name. -/
theorem child (hopen : OpenIn fs root directory) (htree : fs.IsTree root)
    (hentry : fs.entry? (directory.location ++ [name]) = some entry) :
    IsFileName name ∧ ∀ target, entry ≠ .link target := by
  obtain ⟨place, hplace⟩ := hopen.below
  rw [hplace, List.append_assoc] at hentry
  refine ⟨htree.named _ entry hentry name (by simp), ?_⟩
  rintro target rfl
  exact htree.no_link _ target hentry

theorem not_link {target : Path} (hopen : OpenIn fs root directory) (htree : fs.IsTree root) :
    fs.entry? (directory.location ++ [name]) ≠ some (.link target) :=
  fun hentry => (hopen.child htree hentry).2 target rfl

theorem resolve_child (hopen : OpenIn fs root directory) (htree : fs.IsTree root)
    (hentry : fs.entry? (directory.location ++ [name]) = some entry) :
    fs.resolve (Path.join directory.path name) =
      openBelow directory.path name directory.location := by
  obtain ⟨hname, hplain⟩ := hopen.child htree hentry
  exact resolve_join hopen.found hopen.directory hname hentry hplain

/-- What is found by its path in an open directory stands right there. -/
theorem eq_of_resolve_child (hopen : OpenIn fs root directory) (htree : fs.IsTree root)
    (hentry : fs.entry? (directory.location ++ [name]) = some entry)
    (hresolve : fs.resolve (Path.join directory.path name) = .ok location) :
    location = directory.location ++ [name] := by
  rw [hopen.resolve_child htree hentry] at hresolve
  exact eq_of_openBelow hresolve

/-- A directory that is found in an open one is open too. -/
theorem enter (hopen : OpenIn fs root directory) (htree : fs.IsTree root)
    (hentry : fs.entry? (directory.location ++ [name]) = some .directory)
    (hresolve : fs.resolve (Path.join directory.path name) = .ok location) :
    OpenIn fs root ⟨Path.join directory.path name, directory.location ++ [name]⟩ where
  below := by
    obtain ⟨place, hplace⟩ := hopen.below
    exact ⟨place ++ [name], by rw [hplace, List.append_assoc]⟩
  directory := hentry
  found := by
    obtain rfl := hopen.eq_of_resolve_child htree hentry hresolve
    exact hresolve

/-- Without some files an open directory is open still. -/
theorem of_without (hopen : OpenIn fs root directory) (hwithout : Without fs gone rest) :
    rest.resolve directory.path = .ok directory.location :=
  hwithout.resolve (hwithout.not_gone_of_directory hopen.directory) hopen.found

/-- A directory in an open one is found or not, whatever files are removed. -/
theorem resolve_child_of_without (hopen : OpenIn fs root directory) (htree : fs.IsTree root)
    (hwithout : Without fs gone rest)
    (hentry : fs.entry? (directory.location ++ [name]) = some .directory) :
    rest.resolve (Path.join directory.path name) =
      fs.resolve (Path.join directory.path name) := by
  obtain ⟨hname, hplain⟩ := hopen.child htree hentry
  rw [hopen.resolve_child htree hentry]
  exact resolve_join (hopen.of_without hwithout) (hwithout.directory hopen.directory) hname
    (hwithout.directory hentry) hplain

end OpenIn

/-! ## Visits -/

/-- A visit below a directory: where it stands and its path go on with the same names, and if its
path leads anywhere, then there. -/
structure IsBelow (fs : FileSystem) (directory visit : Visit) : Prop where
  place : ∃ names, visit = ⟨Path.below directory.path names, directory.location ++ names⟩
  found : ∀ location, fs.resolve visit.path = .ok location → location = visit.location

/-- What is below something in a directory is below the directory. -/
theorem IsBelow.trans
    (hbelow : IsBelow fs ⟨Path.join directory.path name, directory.location ++ [name]⟩ visit) :
    IsBelow fs directory visit where
  place := by
    obtain ⟨names, rfl⟩ := hbelow.place
    exact ⟨name :: names, by simp [Path.below]⟩
  found := hbelow.found

theorem OpenIn.isBelow {entry : Entry} (hopen : OpenIn fs root directory) (htree : fs.IsTree root)
    (hentry : fs.entry? (directory.location ++ [name]) = some entry) :
    IsBelow fs directory ⟨Path.join directory.path name, directory.location ++ [name]⟩ where
  place := ⟨[name], rfl⟩
  found := fun _ hresolve => hopen.eq_of_resolve_child htree hentry hresolve

/-- A walk visits what is below the directory in which it stands. -/
theorem isBelow_of_mem_walkNames (htree : fs.IsTree root) (hopen : OpenIn fs root directory)
    (hvisit : visit ∈ (fs.walkNames directory outer names).visits) :
    IsBelow fs directory visit := by
  fun_induction fs.walkNames directory outer names with
  | case1 => cases hvisit
  | case2 directory outer name names location hentry ih => exact ih hopen hvisit
  | case3 directory outer name names path location bytes hentry ih =>
      rcases List.mem_cons.mp hvisit with rfl | hrest
      · exact hopen.isBelow htree hentry
      · exact ih hopen hrest
  | case4 directory outer name names path location hentry ihInner ih =>
      rcases List.mem_cons.mp hvisit with rfl | hrest
      · exact hopen.isBelow htree hentry
      · cases hresolve : fs.resolve path with
        | error error =>
            rw [hresolve] at hrest
            cases hrest
        | ok found =>
            rw [hresolve] at hrest
            rcases Walk.mem_visits_andThen hrest with hinner | hlater
            · exact (ihInner (hopen.enter htree hentry hresolve) hinner).trans
            · exact ih hopen hlater
  | case5 _ _ _ _ _ _ _ hentry | case6 _ _ _ _ _ _ _ hentry | case7 _ _ _ _ _ _ _ hentry
  | case8 _ _ _ _ _ _ _ hentry => exact absurd hentry (hopen.not_link htree)

/-! ## Walks without some files -/

namespace Walk

/-- The walk without its visits to some locations. -/
def without (gone : List Location) (walk : Walk) : Walk :=
  { walk with visits := walk.visits.filter (·.location ∉ gone) }

theorem without_visit_of_gone (hgone : visit.location ∈ gone) :
    (Walk.visit visit walk).without gone = walk.without gone := by
  simp [without, Walk.visit, hgone]

theorem without_visit_of_kept (hkept : visit.location ∉ gone) :
    (Walk.visit visit walk).without gone = .visit visit (walk.without gone) := by
  simp [without, Walk.visit, hkept]

theorem without_andThen : (innerWalk.andThen walk).without gone =
    (innerWalk.without gone).andThen (walk.without gone) := by
  unfold andThen without
  cases hstop : innerWalk.stop with
  | none => simp
  | some error => simp [hstop]

end Walk

/-! Steps of a walk that meets no link. -/

theorem walkNames_absent (hentry : fs.entry? (directory.location ++ [name]) = none) :
    fs.walkNames directory outer (name :: names) = fs.walkNames directory outer names := by
  rw [walkNames]
  split <;> simp_all

theorem walkNames_file {bytes : List UInt8}
    (hentry : fs.entry? (directory.location ++ [name]) = some (.file bytes)) :
    fs.walkNames directory outer (name :: names) =
      .visit ⟨Path.join directory.path name, directory.location ++ [name]⟩
        (fs.walkNames directory outer names) := by
  rw [walkNames]
  split <;> simp_all

theorem walkNames_directory
    (hentry : fs.entry? (directory.location ++ [name]) = some .directory) :
    fs.walkNames directory outer (name :: names) =
      .visit ⟨Path.join directory.path name, directory.location ++ [name]⟩
        (match fs.resolve (Path.join directory.path name) with
        | .error error => .stopped (.os (Path.join directory.path name) error)
        | .ok _ =>
            (fs.walkNames ⟨Path.join directory.path name, directory.location ++ [name]⟩
              (directory :: outer) (fs.children (directory.location ++ [name]))).andThen
              (fs.walkNames directory outer names)) := by
  rw [walkNames]
  split <;> first | rfl | simp_all

/-- Without some files of a tree, a walk through a directory makes the other visits. -/
theorem Without.walkNames_eq (hwithout : Without fs gone rest) (htree : fs.IsTree root)
    (hopen : OpenIn fs root directory) :
    rest.walkNames directory outer (names.filter (directory.location ++ [·] ∉ gone)) =
      (fs.walkNames directory outer names).without gone := by
  fun_induction fs.walkNames directory outer names with
  | case1 => rw [List.filter_nil, walkNames]; rfl
  | case2 directory outer name names location hentry ih =>
      have hkept : location ∉ gone := hwithout.not_gone (by simp [hentry])
      rw [List.filter_cons_of_pos (by simpa using hkept),
        walkNames_absent ((hwithout.entry_of_kept hkept).trans hentry)]
      exact ih hopen
  | case3 directory outer name names path location bytes hentry ih =>
      by_cases hgone : location ∈ gone
      · -- A removed file is no name of the directory any more, and its visit is gone.
        rw [List.filter_cons_of_neg (by simpa using hgone), Walk.without_visit_of_gone hgone]
        exact ih hopen
      · rw [List.filter_cons_of_pos (by simpa using hgone),
          walkNames_file ((hwithout.entry_of_kept hgone).trans hentry),
          Walk.without_visit_of_kept hgone, ih hopen]
  | case4 directory outer name names path location hentry ihInner ih =>
      have hkept : location ∉ gone := hwithout.not_gone_of_directory hentry
      rw [List.filter_cons_of_pos (by simpa using hkept),
        walkNames_directory (hwithout.directory hentry), Walk.without_visit_of_kept hkept,
        hopen.resolve_child_of_without htree hwithout hentry]
      -- The directory opens in both file systems, or in neither for the same reason.
      cases hresolve : fs.resolve path with
      | error error => rfl
      | ok found =>
          have hinner := ihInner (hopen.enter htree hentry hresolve)
          rw [← hwithout.children] at hinner
          rw [hinner, ih hopen, Walk.without_andThen]
  | case5 _ _ _ _ _ _ _ hentry | case6 _ _ _ _ _ _ _ hentry | case7 _ _ _ _ _ _ _ hentry
  | case8 _ _ _ _ _ _ _ hentry => exact absurd hentry (hopen.not_link htree)

variable {path : Path}

theorem openIn_root (htree : fs.IsTree root) (hresolve : fs.resolve path = .ok root) :
    OpenIn fs root ⟨path, root⟩ where
  below := ⟨[], (List.append_nil root).symm⟩
  directory := htree.directory
  found := hresolve

/-- A walk of a tree visits its root and what is below. -/
theorem isBelow_of_mem_walk (htree : fs.IsTree root) (hresolve : fs.resolve path = .ok root)
    (hvisit : visit ∈ (fs.walk path).visits) : IsBelow fs ⟨path, root⟩ visit := by
  rw [walk_of_directory hresolve htree.directory, Walk.visits_visit] at hvisit
  rcases List.mem_cons.mp hvisit with rfl | hbelow
  · refine ⟨⟨[], by simp [Path.below]⟩, fun location hlocation => ?_⟩
    exact Except.ok.inj (hlocation.symm.trans hresolve)
  · exact isBelow_of_mem_walkNames htree (openIn_root htree hresolve) hbelow

/-- Where a visit stands below a directory tells its path. -/
theorem IsBelow.eq_of_location {other : Visit} (hvisit : IsBelow fs directory visit)
    (hother : IsBelow fs directory other) (heq : visit.location = other.location) :
    visit = other := by
  obtain ⟨names, rfl⟩ := hvisit.place
  obtain ⟨others, rfl⟩ := hother.place
  rw [List.append_cancel_left heq]

/-- Without some files of a tree, a walk makes the other visits. -/
theorem Without.walk_eq (hwithout : Without fs gone rest) (htree : fs.IsTree root)
    (hresolve : fs.resolve path = .ok root) : rest.walk path = (fs.walk path).without gone := by
  have hkept := hwithout.not_gone_of_directory htree.directory
  rw [walk_of_directory hresolve htree.directory,
    walk_of_directory (hwithout.resolve hkept hresolve) (hwithout.directory htree.directory),
    Walk.without_visit_of_kept hkept, hwithout.children,
    hwithout.walkNames_eq htree (openIn_root htree hresolve)]

end OberonImports.FileSystem
