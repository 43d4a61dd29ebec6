import OberonImports.Proofs.FileSystem.Entries

/-!
# What a walk reaches

What can be reached from a path is told without walking: a place is the names on the way, each held
by the directory before it, and links are followed on the way. A walk that comes to its end has
visited exactly what can be reached, in strictly ascending order of places.
-/

namespace OberonImports.FileSystem

variable {fs : FileSystem} {root : Path} {name : FileName} {names place : List FileName}
  {directory next visit : Visit} {outer : List Visit} {places inner : List (List FileName)}
  {visits innerVisits : List Visit} {walk innerWalk : Walk}

/-- What a directory holds under a name, links followed: a link leads where its path leads. -/
def held? (fs : FileSystem) (directory : Visit) (name : FileName) : Option Visit :=
  let path := Path.join directory.path name
  match fs.entry? (directory.location ++ [name]) with
  | none => none
  | some (.link _) => (fs.resolve path).toOption.map (⟨path, ·⟩)
  | some _ => some ⟨path, directory.location ++ [name]⟩

/-- What is reached from a visit through the entries of directories, one name after the other. -/
def reached? (fs : FileSystem) (visit : Visit) : List FileName → Option Visit
  | [] => some visit
  | name :: names =>
      if fs.entry? visit.location = some .directory then
        match fs.held? visit name with
        | none => none
        | some next => fs.reached? next names
      else none

/-- What is reached from a path. The path itself is followed first. -/
def reachedFrom? (fs : FileSystem) (root : Path) (place : List FileName) : Option Visit :=
  match fs.resolve root with
  | .error _ => none
  | .ok location => fs.reached? ⟨root, location⟩ place

theorem held?_of_none (hentry : fs.entry? (directory.location ++ [name]) = none) :
    fs.held? directory name = none := by
  simp [held?, hentry]

theorem held?_of_file {bytes : List UInt8}
    (hentry : fs.entry? (directory.location ++ [name]) = some (.file bytes)) :
    fs.held? directory name =
      some ⟨Path.join directory.path name, directory.location ++ [name]⟩ := by
  simp [held?, hentry]

theorem held?_of_directory
    (hentry : fs.entry? (directory.location ++ [name]) = some .directory) :
    fs.held? directory name =
      some ⟨Path.join directory.path name, directory.location ++ [name]⟩ := by
  simp [held?, hentry]

theorem held?_of_link {target : Path} {location : Location}
    (hentry : fs.entry? (directory.location ++ [name]) = some (.link target))
    (hresolve : fs.resolve (Path.join directory.path name) = .ok location) :
    fs.held? directory name = some ⟨Path.join directory.path name, location⟩ := by
  simp [held?, hentry, hresolve, Except.toOption]

theorem reached?_cons (hdirectory : fs.entry? directory.location = some .directory)
    (hheld : fs.held? directory name = some next) :
    fs.reached? directory (name :: names) = fs.reached? next names := by
  simp [reached?, hdirectory, hheld]

theorem reached?_cons_of_not_held (hheld : fs.held? directory name = none) :
    fs.reached? directory (name :: names) = none := by
  simp [reached?, hheld]

theorem reached?_cons_of_not_directory
    (hdirectory : fs.entry? directory.location ≠ some .directory) :
    fs.reached? directory (name :: names) = none := by
  simp [reached?, hdirectory]

theorem directory_of_reached_cons (hreached : fs.reached? directory (name :: names) = some visit) :
    fs.entry? directory.location = some .directory := by
  by_contra hnot
  rw [reached?_cons_of_not_directory hnot] at hreached
  cases hreached

/-- What is reached through a name stands in the directory under this name. -/
theorem held_of_reached (hreached : fs.reached? directory (name :: names) = some visit) :
    ∃ next, fs.held? directory name = some next ∧ fs.reached? next names = some visit := by
  unfold reached? at hreached
  split at hreached
  next =>
    cases hheld : fs.held? directory name with
    | none =>
        rw [hheld] at hreached
        cases hreached
    | some next =>
        rw [hheld] at hreached
        exact ⟨next, rfl, hreached⟩
  next => cases hreached

theorem entry_of_held (hheld : fs.held? directory name = some next) :
    ∃ entry, fs.entry? (directory.location ++ [name]) = some entry := by
  unfold held? at hheld
  cases hentry : fs.entry? (directory.location ++ [name]) with
  | none =>
      rw [hentry] at hheld
      cases hheld
  | some entry => exact ⟨entry, rfl⟩

theorem resolve_of_held {target : Path}
    (hentry : fs.entry? (directory.location ++ [name]) = some (.link target))
    (hheld : fs.held? directory name = some next) :
    fs.resolve (Path.join directory.path name) = .ok next.location := by
  cases hresolve : fs.resolve (Path.join directory.path name) with
  | error error => simp [held?, hentry, hresolve, Except.toOption] at hheld
  | ok location =>
      rw [held?_of_link hentry hresolve] at hheld
      cases hheld
      rfl

theorem path_of_held (hheld : fs.held? directory name = some next) :
    next.path = Path.join directory.path name := by
  unfold held? at hheld
  split at hheld
  next => cases hheld
  next =>
    obtain ⟨location, -, rfl⟩ := Option.map_eq_some_iff.mp hheld
    rfl
  next =>
    cases hheld
    rfl

/-- A place below a directory starts with a name that the directory holds. -/
theorem mem_children_of_reached (hreached : fs.reached? directory (name :: names) = some visit) :
    name ∈ fs.children directory.location := by
  obtain ⟨next, hheld, -⟩ := held_of_reached hreached
  exact mem_children.mpr (entry_of_held hheld)

theorem reached?_append :
    fs.reached? directory (names ++ place) =
      (fs.reached? directory names).bind (fs.reached? · place) := by
  induction names generalizing directory with
  | nil => rfl
  | cons name names ih =>
      simp only [List.cons_append, reached?]
      split
      next =>
        cases fs.held? directory name with
        | none => rfl
        | some next => exact ih
      next => rfl

/-- The path by which a place is reached. -/
theorem path_of_reached (hreached : fs.reached? directory place = some visit) :
    visit.path = place.foldl Path.join directory.path := by
  induction place generalizing directory with
  | nil =>
      cases hreached
      rfl
  | cons name names ih =>
      obtain ⟨next, hheld, hrest⟩ := held_of_reached hreached
      rw [ih hrest, path_of_held hheld, List.foldl_cons]

theorem reachedFrom?_of_resolve {location : Location} (hresolve : fs.resolve root = .ok location) :
    fs.reachedFrom? root = fs.reached? ⟨root, location⟩ := by
  funext place
  rw [reachedFrom?, hresolve]

/-- What is reached from a path is reached from where the path leads. -/
theorem exists_reached_of_reachedFrom (hreached : fs.reachedFrom? root place = some visit) :
    ∃ location, fs.resolve root = .ok location ∧
      fs.reached? ⟨root, location⟩ place = some visit := by
  cases hresolve : fs.resolve root with
  | error error =>
      rw [reachedFrom?, hresolve] at hreached
      cases hreached
  | ok location =>
      rw [reachedFrom?_of_resolve hresolve] at hreached
      exact ⟨location, rfl, hreached⟩

theorem reachedFrom?_append (hreached : fs.reachedFrom? root place = some visit)
    (rest : List FileName) : fs.reachedFrom? root (place ++ rest) = fs.reached? visit rest := by
  obtain ⟨location, hresolve, hreached⟩ := exists_reached_of_reachedFrom hreached
  rw [reachedFrom?_of_resolve hresolve, reached?_append, hreached]
  rfl

/-! ## Lists of visits -/

/-- Visits in ascending order of their places below a directory. They are all that can be reached
from the directory through one of the names. -/
structure Lists (fs : FileSystem) (directory : Visit) (names : List FileName)
    (places : List (List FileName)) (visits : List Visit) : Prop where
  reached : places.map (fs.reached? directory) = visits.map some
  ascending : places.Pairwise (· < ·)
  complete : ∀ place, place ∈ places ↔
    ∃ name ∈ names, ∃ rest visit, place = name :: rest ∧ fs.reached? directory place = some visit

namespace Lists

theorem nil : Lists fs directory [] [] [] := ⟨rfl, .nil, by simp⟩

theorem of_not_directory (hdirectory : fs.entry? directory.location ≠ some .directory) :
    Lists fs directory names [] [] := by
  refine ⟨rfl, .nil, fun place => ⟨by simp, ?_⟩⟩
  rintro ⟨name, -, rest, visit, rfl, hreached⟩
  rw [reached?_cons_of_not_directory hdirectory] at hreached
  cases hreached

theorem cons_of_not_held (hheld : fs.held? directory name = none)
    (hrest : Lists fs directory names places visits) :
    Lists fs directory (name :: names) places visits := by
  refine ⟨hrest.reached, hrest.ascending, fun place => ?_⟩
  rw [hrest.complete place]
  constructor
  · rintro ⟨other, hother, hplace⟩
    exact ⟨other, List.mem_cons_of_mem name hother, hplace⟩
  · rintro ⟨other, hother, rest, visit, rfl, hreached⟩
    rcases List.mem_cons.mp hother with rfl | hmem
    · rw [reached?_cons_of_not_held hheld] at hreached
      cases hreached
    · exact ⟨other, hmem, rest, visit, rfl, hreached⟩

/-- All that is reached below a directory is reached through one of the names that it holds. -/
theorem mem_iff_of_children (hlists : Lists fs next (fs.children next.location) places visits) :
    place ∈ places ↔ place ≠ [] ∧ ∃ visit, fs.reached? next place = some visit := by
  rw [hlists.complete]
  constructor
  · rintro ⟨name, -, rest, visit, rfl, hreached⟩
    exact ⟨List.cons_ne_nil name rest, visit, hreached⟩
  · rintro ⟨hne, visit, hreached⟩
    obtain ⟨name, rest, rfl⟩ := List.exists_cons_of_ne_nil hne
    exact ⟨name, mem_children_of_reached hreached, rest, visit, rfl, hreached⟩

/-- What stands under the lowest name comes first, then what is below it, then the rest. -/
theorem cons (hdirectory : fs.entry? directory.location = some .directory)
    (hheld : fs.held? directory name = some next)
    (hinner : Lists fs next (fs.children next.location) inner innerVisits)
    (hrest : Lists fs directory names places visits)
    (hlowest : ∀ other ∈ names, name < other) :
    Lists fs directory (name :: names) ([name] :: inner.map (name :: ·) ++ places)
      (next :: innerVisits ++ visits) := by
  have hbelow : ∀ rest, fs.reached? directory (name :: rest) = fs.reached? next rest :=
    fun _ => reached?_cons hdirectory hheld
  have hmem : ∀ rest, name :: rest ∈ [name] :: inner.map (name :: ·) ↔
      ∃ visit, fs.reached? next rest = some visit := by
    intro rest
    cases rest with
    | nil => simp [reached?]
    | cons other rest => simp [hinner.mem_iff_of_children]
  have hhead : ∀ place ∈ [name] :: inner.map (name :: ·), ∃ rest, place = name :: rest := by
    intro place hplace
    rcases List.mem_cons.mp hplace with rfl | hmap
    · exact ⟨[], rfl⟩
    · obtain ⟨rest, -, rfl⟩ := List.mem_map.mp hmap
      exact ⟨rest, rfl⟩
  have hfirst : ([name] :: inner.map (name :: ·)).Pairwise (· < ·) := by
    refine List.pairwise_cons.mpr ⟨fun place hplace => ?_, List.pairwise_map.mpr ?_⟩
    · obtain ⟨rest, hrest, rfl⟩ := List.mem_map.mp hplace
      obtain ⟨other, rest, rfl⟩ :=
        List.exists_cons_of_ne_nil (hinner.mem_iff_of_children.mp hrest).1
      exact List.cons_lt_cons_iff.mpr (.inr ⟨rfl, List.nil_lt_cons other rest⟩)
    · exact hinner.ascending.imp fun hlt => List.cons_lt_cons_iff.mpr (.inr ⟨rfl, hlt⟩)
  refine ⟨?_, List.pairwise_append.mpr ⟨hfirst, hrest.ascending, ?_⟩, fun place => ?_⟩
  · simp only [List.cons_append, List.map_cons, List.map_append, List.map_map, Function.comp_def,
      hbelow, hrest.reached, ← hinner.reached]
    rfl
  · intro lower hlower upper hupper
    obtain ⟨rest, rfl⟩ := hhead lower hlower
    obtain ⟨other, hother, rest, -, rfl, -⟩ := (hrest.complete upper).mp hupper
    exact List.cons_lt_cons_iff.mpr (.inl (hlowest other hother))
  · simp only [List.mem_append, hrest.complete place, List.mem_cons (b := name), exists_eq_or_imp]
    refine or_congr ⟨fun hplace => ?_, ?_⟩ Iff.rfl
    · obtain ⟨rest, rfl⟩ := hhead place hplace
      obtain ⟨visit, hreached⟩ := (hmem rest).mp hplace
      exact ⟨rest, visit, rfl, (hbelow rest).trans hreached⟩
    · rintro ⟨rest, visit, rfl, hreached⟩
      exact (hmem rest).mpr ⟨visit, (hbelow rest).symm.trans hreached⟩

end Lists

/-! ## Walks -/

namespace Walk

@[simp]
theorem stop_visit : (Walk.visit visit walk).stop = walk.stop := rfl

@[simp]
theorem visits_visit : (Walk.visit visit walk).visits = visit :: walk.visits := rfl

theorem stop_andThen :
    (innerWalk.andThen walk).stop = none ↔ innerWalk.stop = none ∧ walk.stop = none := by
  unfold andThen
  cases hstop : innerWalk.stop <;> simp [hstop]

theorem visits_andThen (hstop : innerWalk.stop = none) :
    (innerWalk.andThen walk).visits = innerWalk.visits ++ walk.visits := by
  simp [andThen, hstop]

theorem mem_visits_andThen (hvisit : visit ∈ (innerWalk.andThen walk).visits) :
    visit ∈ innerWalk.visits ∨ visit ∈ walk.visits := by
  cases hstop : innerWalk.stop with
  | none =>
      rw [visits_andThen hstop] at hvisit
      exact List.mem_append.mp hvisit
  | some error =>
      rw [andThen, hstop] at hvisit
      exact .inl hvisit

end Walk

theorem walk_of_directory {location : Location} (hresolve : fs.resolve root = .ok location)
    (hdirectory : fs.entry? location = some .directory) : fs.walk root =
      .visit ⟨root, location⟩ (fs.walkNames ⟨root, location⟩ [] (fs.children location)) := by
  simp only [walk, hresolve, if_pos hdirectory]

theorem walk_of_not_directory {location : Location} (hresolve : fs.resolve root = .ok location)
    (hnot : fs.entry? location ≠ some .directory) :
    fs.walk root = .visit ⟨root, location⟩ .nothing := by
  simp only [walk, hresolve, if_neg hnot]

/-- What is no directory is visited, and the walk goes on behind it. -/
theorem walkNames_of_not_directory
    (hheld : fs.held? directory name = some next)
    (hnext : fs.entry? next.location ≠ some .directory) :
    fs.walkNames directory outer (name :: names) =
      .visit next (fs.walkNames directory outer names) := by
  unfold held? at hheld
  rw [walkNames]
  split <;> grind [Except.toOption]

/-- A directory that can be opened and in which the walk does not stand is visited before what it
holds. -/
theorem walkNames_of_directory
    (hheld : fs.held? directory name = some next)
    (hnext : fs.entry? next.location = some .directory)
    (hopen : fs.resolve next.path = .ok next.location)
    (hnew : (directory :: outer).find? (·.location = next.location) = none) :
    fs.walkNames directory outer (name :: names) =
      .visit next ((fs.walkNames next (directory :: outer) (fs.children next.location)).andThen
        (fs.walkNames directory outer names)) := by
  unfold held? at hheld
  rw [walkNames]
  split <;> grind [Except.toOption]

/-- A link that leads nowhere ends the walk. -/
theorem walkNames_of_dangling {target : Path} {error : OsError}
    (hentry : fs.entry? (directory.location ++ [name]) = some (.link target))
    (hresolve : fs.resolve (Path.join directory.path name) = .error error) :
    fs.walkNames directory outer (name :: names) =
      .stopped (.os (Path.join directory.path name) error) := by
  rw [walkNames]
  split <;> simp_all

/-- If a walk comes to its end, it lists what is reached from a directory through some names. -/
def Exhausts (fs : FileSystem) (directory : Visit) (names : List FileName) (walk : Walk) : Prop :=
  walk.stop = none → ∃ places, Lists fs directory names places walk.visits

namespace Exhausts

theorem stopped {error : WalkError} : Exhausts fs directory names (.stopped error) :=
  fun hstop => by cases hstop

/-- A directory is visited before what it holds. -/
theorem enter (hdirectory : fs.entry? directory.location = some .directory)
    (hnames : (name :: names).Pairwise (· < ·)) (hheld : fs.held? directory name = some next)
    (hinner : Exhausts fs next (fs.children next.location) innerWalk)
    (hrest : Exhausts fs directory names walk) :
    Exhausts fs directory (name :: names) (.visit next (innerWalk.andThen walk)) := by
  intro hstop
  obtain ⟨hinnerStop, hrestStop⟩ := Walk.stop_andThen.mp hstop
  obtain ⟨inner, hinner⟩ := hinner hinnerStop
  obtain ⟨places, hplaces⟩ := hrest hrestStop
  rw [Walk.visits_visit, Walk.visits_andThen hinnerStop]
  exact ⟨_, .cons hdirectory hheld hinner hplaces (List.pairwise_cons.mp hnames).1⟩

/-- What is no directory holds nothing. -/
theorem pass (hdirectory : fs.entry? directory.location = some .directory)
    (hnames : (name :: names).Pairwise (· < ·)) (hheld : fs.held? directory name = some next)
    (hnext : fs.entry? next.location ≠ some .directory)
    (hrest : Exhausts fs directory names walk) :
    Exhausts fs directory (name :: names) (.visit next walk) := by
  intro hstop
  obtain ⟨places, hplaces⟩ := hrest hstop
  exact ⟨_, .cons hdirectory hheld (.of_not_directory hnext) hplaces
    (List.pairwise_cons.mp hnames).1⟩

end Exhausts

/-- By induction on the walk: each name adds what stands under it in the directory. -/
theorem exhausts_walkNames (hdirectory : fs.entry? directory.location = some .directory)
    (hnames : names.Pairwise (· < ·)) :
    Exhausts fs directory names (fs.walkNames directory outer names) := by
  have hchildren := fs.pairwise_children
  fun_induction fs.walkNames directory outer names with
  | case1 => exact fun _ => ⟨[], .nil⟩
  | case2 directory outer name names location hentry ih =>
      intro hstop
      obtain ⟨places, hplaces⟩ := ih hdirectory hnames.of_cons hstop
      exact ⟨places, hplaces.cons_of_not_held (held?_of_none hentry)⟩
  | case3 directory outer name names path location bytes hentry ih =>
      have hnot : fs.entry? location ≠ some .directory := by simp [hentry]
      exact .pass hdirectory hnames (held?_of_file hentry) hnot (ih hdirectory hnames.of_cons)
  | case4 directory outer name names path location hentry ihInner ih =>
      cases hresolve : fs.resolve path with
      | error error => exact fun hstop => by cases hstop
      | ok _ =>
          exact .enter hdirectory hnames (held?_of_directory hentry)
            (ihInner hentry (hchildren location)) (ih hdirectory hnames.of_cons)
  | case5 => exact .stopped
  | case6 => exact .stopped
  | case7 directory outer name names path _ _ hentry found hresolve hfound _ ihInner ih =>
      exact .enter hdirectory hnames (held?_of_link hentry hresolve)
        (ihInner hfound (hchildren found)) (ih hdirectory hnames.of_cons)
  | case8 directory outer name names path _ _ hentry found hresolve hnot ih =>
      exact .pass hdirectory hnames (held?_of_link hentry hresolve) hnot
        (ih hdirectory hnames.of_cons)

theorem exhausts_walk {location : Location} (hresolve : fs.resolve root = .ok location) :
    ∃ below, fs.walk root = .visit ⟨root, location⟩ below ∧
      Exhausts fs ⟨root, location⟩ (fs.children location) below := by
  by_cases hdirectory : fs.entry? location = some .directory
  · exact ⟨_, walk_of_directory hresolve hdirectory,
      exhausts_walkNames hdirectory (fs.pairwise_children location)⟩
  · exact ⟨.nothing, walk_of_not_directory hresolve hdirectory,
      fun _ => ⟨[], .of_not_directory hdirectory⟩⟩

/-- A walk that comes to its end lists all that is reached from its root. -/
theorem exists_places_walk (hstop : (fs.walk root).stop = none) :
    ∃ places : List (List FileName),
      places.map (fs.reachedFrom? root) = (fs.walk root).visits.map some ∧
      places.Pairwise (· < ·) ∧
      ∀ place, place ∈ places ↔ ∃ visit, fs.reachedFrom? root place = some visit := by
  cases hresolve : fs.resolve root with
  | error error =>
      rw [walk, hresolve] at hstop
      cases hstop
  | ok location =>
      obtain ⟨below, hwalk, hexhausts⟩ := exhausts_walk hresolve
      rw [hwalk, Walk.stop_visit] at hstop
      obtain ⟨places, hlists⟩ := hexhausts hstop
      have hfrom := reachedFrom?_of_resolve hresolve
      refine ⟨[] :: places, ?_, List.pairwise_cons.mpr ⟨?_, hlists.ascending⟩, fun place => ?_⟩
      · rw [hfrom, hwalk, List.map_cons, hlists.reached]
        rfl
      · intro place hplace
        obtain ⟨name, rest, rfl⟩ :=
          List.exists_cons_of_ne_nil (hlists.mem_iff_of_children.mp hplace).1
        exact List.nil_lt_cons name rest
      · rw [hfrom, List.mem_cons, hlists.mem_iff_of_children]
        by_cases hroot : place = []
        · simp [hroot, reached?]
        · simp [hroot]

/-- A walk that comes to its end has visited exactly what is reached from its root. -/
theorem mem_visits_walk (hstop : (fs.walk root).stop = none) :
    visit ∈ (fs.walk root).visits ↔ ∃ place, fs.reachedFrom? root place = some visit := by
  obtain ⟨places, hvisits, -, hcomplete⟩ := exists_places_walk hstop
  have hmem : visit ∈ (fs.walk root).visits ↔ some visit ∈ places.map (fs.reachedFrom? root) := by
    simp [hvisits]
  rw [hmem, List.mem_map]
  constructor
  · rintro ⟨place, -, hreached⟩
    exact ⟨place, hreached⟩
  · rintro ⟨place, hreached⟩
    exact ⟨place, (hcomplete place).mpr ⟨visit, hreached⟩, hreached⟩

/-- The visits of a walk that comes to its end stand at ascending places. -/
theorem pairwise_visits_walk (hstop : (fs.walk root).stop = none) :
    (fs.walk root).visits.Pairwise fun first second => ∃ place other,
      fs.reachedFrom? root place = some first ∧ fs.reachedFrom? root other = some second ∧
        place < other := by
  obtain ⟨places, hvisits, hascending, -⟩ := exists_places_walk hstop
  have hpairs : (places.map (fs.reachedFrom? root)).Pairwise fun first second =>
      ∃ place other, fs.reachedFrom? root place = first ∧ fs.reachedFrom? root other = second ∧
        place < other :=
    List.pairwise_map.mpr (hascending.imp fun {place other} hlt => ⟨place, other, rfl, rfl, hlt⟩)
  rw [hvisits] at hpairs
  exact List.pairwise_map.mp hpairs

end OberonImports.FileSystem
