import OberonImports.Proofs.FileSystem.Reach

/-!
# Where a walk ends early

What can end a walk is told for each place without walking: a link that leads nowhere, a directory
that cannot be opened, and a link to a directory on the way. A walk comes to its end if there is no
such obstacle, however deep, and else it ends at the first one in the order of places, after it has
visited files at earlier places only.
-/

namespace OberonImports.FileSystem

variable {fs : FileSystem} {root : Path} {name : FileName} {names place : List FileName}
  {directory next visit : Visit} {outer : List Visit} {walk innerWalk : Walk} {error : WalkError}

/-- What keeps a walk from going on with a name in a directory, while it stands in this directory
and in those of `outer`, innermost first. -/
def obstacle? (fs : FileSystem) (directory : Visit) (outer : List Visit) (name : FileName) :
    Option WalkError :=
  let path := Path.join directory.path name
  match fs.entry? (directory.location ++ [name]), fs.resolve path with
  | some .directory, .error error | some (.link _), .error error => some (.os path error)
  | some (.link _), .ok target =>
      if fs.entry? target = some .directory then
        ((directory :: outer).find? (·.location = target)).map (.loop path ·.path)
      else none
  | _, _ => none

/-- The obstacle at a place below a directory. The way to it may have obstacles of its own. -/
def obstacleAt? (fs : FileSystem) (directory : Visit) (outer : List Visit) :
    List FileName → Option WalkError
  | [] => none
  | [name] => fs.obstacle? directory outer name
  | name :: second :: names =>
      match fs.held? directory name with
      | none => none
      | some next =>
          if fs.entry? next.location = some .directory then
            fs.obstacleAt? next (directory :: outer) (second :: names)
          else none

/-- The obstacle at a place below a path. The first one may be that the path leads nowhere. -/
def obstacleFrom? (fs : FileSystem) (root : Path) (place : List FileName) : Option WalkError :=
  match fs.resolve root with
  | .error error => if place = [] then some (.os root error) else none
  | .ok location =>
      if fs.entry? location = some .directory then fs.obstacleAt? ⟨root, location⟩ [] place
      else none

/-! ### Obstacles under a name -/

section

variable {cause : OsError} {target : Path} {found : Location}

theorem obstacle?_of_none (hentry : fs.entry? (directory.location ++ [name]) = none) :
    fs.obstacle? directory outer name = none := by
  simp only [obstacle?, hentry]

theorem obstacle?_of_file {bytes : List UInt8}
    (hentry : fs.entry? (directory.location ++ [name]) = some (.file bytes)) :
    fs.obstacle? directory outer name = none := by
  simp only [obstacle?, hentry]

/-- A directory that can be opened is no obstacle, wherever its path leads. -/
theorem obstacle?_of_open (hentry : fs.entry? (directory.location ++ [name]) = some .directory)
    (hresolve : fs.resolve (Path.join directory.path name) = .ok found) :
    fs.obstacle? directory outer name = none := by
  simp only [obstacle?, hentry, hresolve]

theorem obstacle?_of_closed (hentry : fs.entry? (directory.location ++ [name]) = some .directory)
    (hresolve : fs.resolve (Path.join directory.path name) = .error cause) :
    fs.obstacle? directory outer name = some (.os (Path.join directory.path name) cause) := by
  simp only [obstacle?, hentry, hresolve]

theorem obstacle?_of_lost
    (hentry : fs.entry? (directory.location ++ [name]) = some (.link target))
    (hresolve : fs.resolve (Path.join directory.path name) = .error cause) :
    fs.obstacle? directory outer name = some (.os (Path.join directory.path name) cause) := by
  simp only [obstacle?, hentry, hresolve]

/-- A link to a directory in which the walk stands is an obstacle. -/
theorem obstacle?_of_loop {ancestor : Visit}
    (hentry : fs.entry? (directory.location ++ [name]) = some (.link target))
    (hresolve : fs.resolve (Path.join directory.path name) = .ok found)
    (hfound : fs.entry? found = some .directory)
    (hancestor : (directory :: outer).find? (·.location = found) = some ancestor) :
    fs.obstacle? directory outer name =
      some (.loop (Path.join directory.path name) ancestor.path) := by
  simp only [obstacle?, hentry, hresolve, if_pos hfound, hancestor, Option.map_some]

/-- One to another directory is not. -/
theorem obstacle?_of_new
    (hentry : fs.entry? (directory.location ++ [name]) = some (.link target))
    (hresolve : fs.resolve (Path.join directory.path name) = .ok found)
    (hnew : (directory :: outer).find? (·.location = found) = none) :
    fs.obstacle? directory outer name = none := by
  simp only [obstacle?, hentry, hresolve, hnew, Option.map_none, ite_self]

theorem obstacle?_of_leaf
    (hentry : fs.entry? (directory.location ++ [name]) = some (.link target))
    (hresolve : fs.resolve (Path.join directory.path name) = .ok found)
    (hnot : fs.entry? found ≠ some .directory) :
    fs.obstacle? directory outer name = none := by
  simp only [obstacle?, hentry, hresolve, if_neg hnot]

end

/-! ### Obstacles behind a name -/

/-- There is no obstacle at a place that starts with one of the names. -/
def Clear (fs : FileSystem) (directory : Visit) (outer : List Visit) (names : List FileName) : Prop :=
  ∀ name ∈ names, ∀ rest, fs.obstacleAt? directory outer (name :: rest) = none

theorem obstacleAt?_of_held (hheld : fs.held? directory name = some next)
    (hnext : fs.entry? next.location = some .directory) (hplace : place ≠ []) :
    fs.obstacleAt? directory outer (name :: place) =
      fs.obstacleAt? next (directory :: outer) place := by
  obtain ⟨second, names, rfl⟩ := List.exists_cons_of_ne_nil hplace
  simp [obstacleAt?, hheld, hnext]

/-- Nothing is behind what is no directory, nor behind what is missing. -/
theorem obstacleAt?_of_not_directory (hhere : fs.obstacle? directory outer name = none)
    (hnot : ∀ next, fs.held? directory name = some next →
      fs.entry? next.location ≠ some .directory) (rest : List FileName) :
    fs.obstacleAt? directory outer (name :: rest) = none := by
  cases rest with
  | nil => exact hhere
  | cons second names =>
      cases hheld : fs.held? directory name with
      | none => simp [obstacleAt?, hheld]
      | some next => simp [obstacleAt?, hheld, hnot next hheld]

/-- An obstacle stands at an entry. -/
theorem mem_children_of_obstacleAt
    (hobstacle : fs.obstacleAt? directory outer (name :: place) = some error) :
    name ∈ fs.children directory.location := by
  rw [mem_children]
  cases place with
  | nil =>
      simp only [obstacleAt?, obstacle?] at hobstacle
      cases hentry : fs.entry? (directory.location ++ [name]) with
      | none => simp [hentry] at hobstacle
      | some entry => exact ⟨entry, rfl⟩
  | cons second names =>
      cases hheld : fs.held? directory name with
      | none => simp [obstacleAt?, hheld] at hobstacle
      | some next => exact entry_of_held hheld

/-- Below a directory there is no obstacle if there is none through the names that it holds. -/
theorem Clear.obstacleAt?_eq_none (hclear : Clear fs next outer (fs.children next.location))
    (place : List FileName) : fs.obstacleAt? next outer place = none := by
  cases place with
  | nil => rfl
  | cons name rest =>
      cases hobstacle : fs.obstacleAt? next outer (name :: rest) with
      | none => rfl
      | some error =>
          rw [hclear name (mem_children_of_obstacleAt hobstacle)] at hobstacle
          cases hobstacle

/-! ### The first obstacle -/

/-- What ends a walk below a directory, if it ends early: the first obstacle at a place that starts
with one of the names. Of what the walk has visited, all but directories stand at earlier places. -/
structure EndsAt (fs : FileSystem) (directory : Visit) (outer : List Visit) (names : List FileName)
    (visits : List Visit) (error : WalkError) (place : List FileName) : Prop where
  obstacle : fs.obstacleAt? directory outer place = some error
  through : ∃ name ∈ names, ∃ rest, place = name :: rest
  least : ∀ name ∈ names, ∀ rest cause,
    fs.obstacleAt? directory outer (name :: rest) = some cause →
      place = name :: rest ∨ place < name :: rest
  before : ∀ visit ∈ visits, fs.entry? visit.location ≠ some .directory →
    ∃ earlier, fs.reached? directory earlier = some visit ∧ earlier < place

/-- A walk comes to its end if no obstacle is in its way, and else ends at the first one. -/
def Heeds (fs : FileSystem) (directory : Visit) (outer : List Visit) (names : List FileName)
    (walk : Walk) : Prop :=
  match walk.stop with
  | none => Clear fs directory outer names
  | some error => ∃ place, EndsAt fs directory outer names walk.visits error place

theorem lt_of_through {other : FileName} {rest : List FileName}
    (hlowest : ∀ other ∈ names, name < other) (hother : other ∈ names) :
    name :: place < other :: rest :=
  List.cons_lt_cons_iff.mpr (.inl (hlowest other hother))

namespace Heeds

/-- An obstacle right under the lowest name is the first one. -/
theorem here (hobstacle : fs.obstacle? directory outer name = some error)
    (hnames : (name :: names).Pairwise (· < ·)) (hstop : walk.stop = some error)
    (hvisits : ∀ visit ∈ walk.visits, fs.entry? visit.location = some .directory) :
    Heeds fs directory outer (name :: names) walk := by
  rw [Heeds, hstop]
  refine ⟨[name], hobstacle, ⟨name, List.mem_cons_self, [], rfl⟩, ?_, ?_⟩
  · intro other hother rest cause _
    rcases List.mem_cons.mp hother with rfl | hmem
    · cases rest with
      | nil => exact .inl rfl
      | cons second rest =>
          exact .inr (List.cons_lt_cons_iff.mpr (.inr ⟨rfl, List.nil_lt_cons second rest⟩))
    · exact .inr (lt_of_through (List.pairwise_cons.mp hnames).1 hmem)
  · intro visit hvisit hnot
    exact absurd (hvisits visit hvisit) hnot

/-- Where nothing under the lowest name is in the way, the other names tell what is. -/
theorem later (front : List Visit)
    (hclear : ∀ rest, fs.obstacleAt? directory outer (name :: rest) = none)
    (hnames : (name :: names).Pairwise (· < ·)) (hrest : Heeds fs directory outer names walk)
    (hfront : ∀ visit ∈ front, ∃ rest, fs.reached? directory (name :: rest) = some visit) :
    Heeds fs directory outer (name :: names) ⟨front ++ walk.visits, walk.stop⟩ := by
  have hlowest := (List.pairwise_cons.mp hnames).1
  unfold Heeds at hrest ⊢
  cases hstop : walk.stop with
  | none =>
      rw [hstop] at hrest
      exact List.forall_mem_cons.mpr ⟨hclear, hrest⟩
  | some error =>
      rw [hstop] at hrest
      obtain ⟨place, hends⟩ := hrest
      obtain ⟨first, hfirst, rest, rfl⟩ := hends.through
      refine ⟨first :: rest, hends.obstacle, ⟨first, List.mem_cons_of_mem _ hfirst, rest, rfl⟩,
        ?_, ?_⟩
      · intro other hother below cause hcause
        rcases List.mem_cons.mp hother with rfl | hmem
        · rw [hclear below] at hcause
          cases hcause
        · exact hends.least other hmem below cause hcause
      · intro visit hvisit hnot
        rcases List.mem_append.mp hvisit with hbefore | hlast
        · obtain ⟨below, hreached⟩ := hfront visit hbefore
          exact ⟨name :: below, hreached, lt_of_through hlowest hfirst⟩
        · exact hends.before visit hlast hnot

end Heeds

/-- The first obstacle below the lowest name is the first one of all. -/
theorem EndsAt.inside {visits : List Visit}
    (hdirectory : fs.entry? directory.location = some .directory)
    (hheld : fs.held? directory name = some next)
    (hnext : fs.entry? next.location = some .directory)
    (hhere : fs.obstacle? directory outer name = none) (hnames : (name :: names).Pairwise (· < ·))
    (hinner : EndsAt fs next (directory :: outer) (fs.children next.location) visits error place) :
    EndsAt fs directory outer (name :: names) (next :: visits) error (name :: place) where
  obstacle := by
    obtain ⟨first, -, rest, rfl⟩ := hinner.through
    rw [obstacleAt?_of_held hheld hnext (List.cons_ne_nil first rest)]
    exact hinner.obstacle
  through := ⟨name, List.mem_cons_self, place, rfl⟩
  least := by
    intro other hother rest cause hcause
    rcases List.mem_cons.mp hother with rfl | hmem
    · cases rest with
      | nil =>
          rw [obstacleAt?, hhere] at hcause
          cases hcause
      | cons second rest =>
          rw [obstacleAt?_of_held hheld hnext (List.cons_ne_nil second rest)] at hcause
          have hsecond := mem_children_of_obstacleAt hcause
          rcases hinner.least second hsecond rest cause hcause with rfl | hlt
          · exact .inl rfl
          · exact .inr (List.cons_lt_cons_iff.mpr (.inr ⟨rfl, hlt⟩))
    · exact .inr (lt_of_through (List.pairwise_cons.mp hnames).1 hmem)
  before := by
    intro visit hvisit hnot
    rcases List.mem_cons.mp hvisit with rfl | hinside
    · exact absurd hnext hnot
    · obtain ⟨earlier, hreached, hlt⟩ := hinner.before visit hinside hnot
      exact ⟨name :: earlier, (reached?_cons hdirectory hheld).trans hreached,
        List.cons_lt_cons_iff.mpr (.inr ⟨rfl, hlt⟩)⟩

namespace Heeds

/-- What can be entered is in order or has the first obstacle. -/
theorem enter (hdirectory : fs.entry? directory.location = some .directory)
    (hheld : fs.held? directory name = some next)
    (hnext : fs.entry? next.location = some .directory)
    (hhere : fs.obstacle? directory outer name = none) (hnames : (name :: names).Pairwise (· < ·))
    (hinner : Heeds fs next (directory :: outer) (fs.children next.location) innerWalk)
    (hreached : ∀ visit ∈ innerWalk.visits, ∃ rest, fs.reached? next rest = some visit)
    (hrest : Heeds fs directory outer names walk) :
    Heeds fs directory outer (name :: names) (.visit next (innerWalk.andThen walk)) := by
  have hbelow : ∀ rest, fs.reached? directory (name :: rest) = fs.reached? next rest :=
    fun _ => reached?_cons hdirectory hheld
  unfold Heeds at hinner
  cases hstop : innerWalk.stop with
  | none =>
      -- Nothing below is in the way, so what is behind the name tells how the walk ends.
      rw [hstop] at hinner
      have hclear : ∀ rest, fs.obstacleAt? directory outer (name :: rest) = none := by
        intro rest
        cases rest with
        | nil => exact hhere
        | cons second rest =>
            rw [obstacleAt?_of_held hheld hnext (List.cons_ne_nil second rest)]
            exact hinner.obstacleAt?_eq_none (second :: rest)
      have hwalk : Walk.visit next (innerWalk.andThen walk) =
          ⟨(next :: innerWalk.visits) ++ walk.visits, walk.stop⟩ := by
        simp [Walk.visit, Walk.andThen, hstop]
      rw [hwalk]
      apply later _ hclear hnames hrest
      intro visit hvisit
      rcases List.mem_cons.mp hvisit with rfl | hinside
      · exact ⟨[], hbelow []⟩
      · obtain ⟨rest, hrest⟩ := hreached visit hinside
        exact ⟨rest, (hbelow rest).trans hrest⟩
  | some error =>
      -- The walk ends below, and nothing behind the name is visited.
      rw [hstop] at hinner
      obtain ⟨place, hends⟩ := hinner
      have hwalk : Walk.visit next (innerWalk.andThen walk) =
          ⟨next :: innerWalk.visits, some error⟩ := by
        simp [Walk.visit, Walk.andThen, hstop]
      rw [hwalk]
      exact ⟨name :: place, hends.inside hdirectory hheld hnext hhere hnames⟩

end Heeds

/-! ### Walks -/

/-- What is visited under a name or behind it is reached from the directory. -/
theorem exists_reached_of_visit (innerWalk : Walk)
    (hdirectory : fs.entry? directory.location = some .directory)
    (hheld : fs.held? directory name = some next)
    (hinner : ∀ visit ∈ innerWalk.visits, ∃ rest, fs.reached? next rest = some visit)
    (hrest : ∀ visit ∈ walk.visits, ∃ place, fs.reached? directory place = some visit) :
    ∀ visit ∈ (Walk.visit next (innerWalk.andThen walk)).visits,
      ∃ place, fs.reached? directory place = some visit := by
  have hbelow : ∀ rest, fs.reached? directory (name :: rest) = fs.reached? next rest :=
    fun _ => reached?_cons hdirectory hheld
  intro visit hvisit
  rcases List.mem_cons.mp hvisit with rfl | hvisit
  · exact ⟨[name], hbelow []⟩
  · rcases Walk.mem_visits_andThen hvisit with hinside | hlater
    · obtain ⟨rest, hreached⟩ := hinner visit hinside
      exact ⟨name :: rest, (hbelow rest).trans hreached⟩
    · exact hrest visit hlater

/-- A walk visits nothing but what is reached, whether it comes to its end or not. -/
theorem exists_reached_of_walkNames (hdirectory : fs.entry? directory.location = some .directory) :
    ∀ visit ∈ (fs.walkNames directory outer names).visits,
      ∃ place, fs.reached? directory place = some visit := by
  fun_induction fs.walkNames directory outer names with
  | case1 => simp [Walk.nothing]
  | case2 directory outer name names location hentry ih => exact ih hdirectory
  | case3 directory outer name names path location bytes hentry ih =>
      have hheld := held?_of_file hentry
      exact exists_reached_of_visit .nothing hdirectory hheld (by simp [Walk.nothing])
        (ih hdirectory)
  | case4 directory outer name names path location hentry ihInner ih =>
      have hheld := held?_of_directory hentry
      cases hresolve : fs.resolve path with
      | error error =>
          exact exists_reached_of_visit (.stopped (.os path error)) hdirectory hheld
            (by simp [Walk.stopped]) (ih hdirectory)
      | ok _ =>
          exact exists_reached_of_visit _ hdirectory hheld (ihInner hentry) (ih hdirectory)
  | case5 => simp [Walk.stopped]
  | case6 => simp [Walk.stopped]
  | case7 directory outer name names path _ _ hentry found hresolve hfound _ ihInner ih =>
      have hheld := held?_of_link hentry hresolve
      exact exists_reached_of_visit _ hdirectory hheld (ihInner hfound) (ih hdirectory)
  | case8 directory outer name names path _ _ hentry found hresolve hnot ih =>
      have hheld := held?_of_link hentry hresolve
      exact exists_reached_of_visit .nothing hdirectory hheld (by simp [Walk.nothing])
        (ih hdirectory)

namespace Heeds

/-- What is no directory is passed. -/
theorem pass (hdirectory : fs.entry? directory.location = some .directory)
    (hheld : fs.held? directory name = some next)
    (hnext : fs.entry? next.location ≠ some .directory)
    (hhere : fs.obstacle? directory outer name = none) (hnames : (name :: names).Pairwise (· < ·))
    (hrest : Heeds fs directory outer names walk) :
    Heeds fs directory outer (name :: names) (.visit next walk) := by
  apply later [next] (obstacleAt?_of_not_directory hhere _) hnames hrest
  · intro visit hvisit
    rw [List.mem_singleton.mp hvisit]
    exact ⟨[], reached?_cons hdirectory hheld⟩
  · intro other hother
    rw [hheld] at hother
    exact Option.some.inj hother ▸ hnext

end Heeds

/-- By induction on the walk: it heeds what is in its way. -/
theorem heeds_walkNames (hdirectory : fs.entry? directory.location = some .directory)
    (hnames : names.Pairwise (· < ·)) :
    Heeds fs directory outer names (fs.walkNames directory outer names) := by
  have hchildren := fs.pairwise_children
  fun_induction fs.walkNames directory outer names with
  | case1 => exact fun _ hname => absurd hname List.not_mem_nil
  | case2 directory outer name names location hentry ih =>
      have hclear : ∀ rest, fs.obstacleAt? directory outer (name :: rest) = none :=
        obstacleAt?_of_not_directory (obstacle?_of_none hentry) (by simp [held?_of_none hentry])
      exact .later [] hclear hnames (ih hdirectory hnames.of_cons) (by simp)
  | case3 directory outer name names path location bytes hentry ih =>
      have hnot : fs.entry? location ≠ some .directory := by simp [hentry]
      exact .pass hdirectory (held?_of_file hentry) hnot (obstacle?_of_file hentry) hnames
        (ih hdirectory hnames.of_cons)
  | case4 directory outer name names path location hentry ihInner ih =>
      cases hresolve : fs.resolve path with
      | error error =>
          apply Heeds.here (obstacle?_of_closed hentry hresolve) hnames rfl
          intro visit hvisit
          rw [List.mem_singleton.mp hvisit]
          exact hentry
      | ok _ =>
          exact .enter hdirectory (held?_of_directory hentry) hentry
            (obstacle?_of_open hentry hresolve) hnames (ihInner hentry (hchildren location))
            (exists_reached_of_walkNames hentry) (ih hdirectory hnames.of_cons)
  | case5 directory outer name names path location target hentry error hresolve =>
      exact .here (obstacle?_of_lost hentry hresolve) hnames rfl (by simp [Walk.stopped])
  | case6 directory outer name names path location target hentry found hresolve hfound ancestor
      hancestor =>
      exact .here (obstacle?_of_loop hentry hresolve hfound hancestor) hnames rfl
        (by simp [Walk.stopped])
  | case7 directory outer name names path _ _ hentry found hresolve hfound hnew ihInner ih =>
      exact .enter hdirectory (held?_of_link hentry hresolve) hfound
        (obstacle?_of_new hentry hresolve hnew) hnames (ihInner hfound (hchildren found))
        (exists_reached_of_walkNames hfound) (ih hdirectory hnames.of_cons)
  | case8 directory outer name names path _ _ hentry found hresolve hnot ih =>
      exact .pass hdirectory (held?_of_link hentry hresolve) hnot
        (obstacle?_of_leaf hentry hresolve hnot) hnames (ih hdirectory hnames.of_cons)

theorem obstacleFrom?_of_resolve {location : Location} (hresolve : fs.resolve root = .ok location)
    (hdirectory : fs.entry? location = some .directory) :
    fs.obstacleFrom? root = fs.obstacleAt? ⟨root, location⟩ [] := by
  funext place
  simp only [obstacleFrom?, hresolve, if_pos hdirectory]

theorem exists_heeds_walk {location : Location} (hresolve : fs.resolve root = .ok location)
    (hdirectory : fs.entry? location = some .directory) :
    ∃ below, fs.walk root = .visit ⟨root, location⟩ below ∧
      Heeds fs ⟨root, location⟩ [] (fs.children location) below :=
  ⟨_, walk_of_directory hresolve hdirectory,
    heeds_walkNames hdirectory (fs.pairwise_children location)⟩

/-- A walk that comes to its end has no obstacle in its way. -/
theorem obstacleFrom?_eq_none (hstop : (fs.walk root).stop = none) (place : List FileName) :
    fs.obstacleFrom? root place = none := by
  cases hresolve : fs.resolve root with
  | error error =>
      rw [walk, hresolve] at hstop
      cases hstop
  | ok location =>
      by_cases hdirectory : fs.entry? location = some .directory
      · obtain ⟨below, hwalk, hheeds⟩ := exists_heeds_walk hresolve hdirectory
        rw [hwalk, Walk.stop_visit] at hstop
        rw [Heeds, hstop] at hheeds
        rw [obstacleFrom?_of_resolve hresolve hdirectory]
        exact hheeds.obstacleAt?_eq_none place
      · simp only [obstacleFrom?, hresolve, if_neg hdirectory]

/-- What ends a walk from a path early: the first obstacle. All that the walk has visited but
directories stands at earlier places. -/
structure FirstObstacle (fs : FileSystem) (root : Path) (error : WalkError)
    (place : List FileName) : Prop where
  obstacle : fs.obstacleFrom? root place = some error
  least : ∀ other cause, fs.obstacleFrom? root other = some cause → place = other ∨ place < other
  before : ∀ visit ∈ (fs.walk root).visits, fs.entry? visit.location ≠ some .directory →
    ∃ earlier, fs.reachedFrom? root earlier = some visit ∧ earlier < place

/-- A walk that ends early ends at the first obstacle in its way. -/
theorem exists_firstObstacle (hstop : (fs.walk root).stop = some error) :
    ∃ place, FirstObstacle fs root error place := by
  cases hresolve : fs.resolve root with
  | error cause =>
      rw [walk, hresolve] at hstop
      obtain rfl : .os root cause = error := Option.some.inj hstop
      refine ⟨[], by simp [obstacleFrom?, hresolve], ?_, by simp [walk, hresolve, Walk.stopped]⟩
      intro other cause hother
      cases other with
      | nil => exact .inl rfl
      | cons name rest => exact .inr (List.nil_lt_cons name rest)
  | ok location =>
      by_cases hdirectory : fs.entry? location = some .directory
      · obtain ⟨below, hwalk, hheeds⟩ := exists_heeds_walk hresolve hdirectory
        rw [hwalk, Walk.stop_visit] at hstop
        rw [Heeds, hstop] at hheeds
        obtain ⟨place, hends⟩ := hheeds
        have hfrom := obstacleFrom?_of_resolve hresolve hdirectory
        refine ⟨place, hfrom ▸ hends.obstacle, ?_, ?_⟩
        · intro other cause hother
          rw [hfrom] at hother
          cases other with
          | nil => cases hother
          | cons name rest =>
              exact hends.least name (mem_children_of_obstacleAt hother) rest cause hother
        · intro visit hvisit hnot
          rw [hwalk] at hvisit
          rw [reachedFrom?_of_resolve hresolve]
          rcases List.mem_cons.mp hvisit with rfl | hbelow
          · exact absurd hdirectory hnot
          · exact hends.before visit hbelow hnot
      · rw [walk, hresolve] at hstop
        simp [hdirectory, Walk.nothing] at hstop

/-! ### Obstacles where something is reached -/

theorem directory_of_reached (hreached : fs.reached? directory place = some visit)
    (hvisit : fs.entry? visit.location = some .directory) :
    fs.entry? directory.location = some .directory := by
  cases place with
  | nil =>
      cases hreached
      exact hvisit
  | cons name rest => exact directory_of_reached_cons hreached

/-- The obstacle under a name in a directory that is reached is told by the directories on the way
there, in which a walk that comes there stands. -/
theorem exists_trail (outer : List Visit) (hreached : fs.reached? directory place = some visit)
    (hvisit : fs.entry? visit.location = some .directory) :
    ∃ trail : List Visit,
      (∀ ancestor, ancestor ∈ visit :: trail ↔ ancestor ∈ outer ∨
        ∃ upper, upper <+: place ∧ fs.reached? directory upper = some ancestor) ∧
      ∀ name, fs.obstacleAt? directory outer (place ++ [name]) =
        fs.obstacle? visit trail name := by
  induction place generalizing directory outer with
  | nil =>
      cases hreached
      refine ⟨outer, fun ancestor => ?_, fun _ => rfl⟩
      simp [reached?, or_comm, eq_comm]
  | cons first rest ih =>
      obtain ⟨next, hheld, hrest⟩ := held_of_reached hreached
      have hdirectory := directory_of_reached hreached hvisit
      have hnext := directory_of_reached hrest hvisit
      have hbelow : ∀ rest, fs.reached? directory (first :: rest) = fs.reached? next rest :=
        fun _ => reached?_cons hdirectory hheld
      -- From the next directory on, this one is an outer one.
      obtain ⟨trail, hmem, hobstacle⟩ := ih (directory :: outer) hrest
      refine ⟨trail, fun ancestor => ?_, fun name => ?_⟩
      · rw [hmem]
        constructor
        · rintro (hopen | ⟨upper, hupper, hancestor⟩)
          · rcases List.mem_cons.mp hopen with rfl | houter
            · exact .inr ⟨[], List.nil_prefix, rfl⟩
            · exact .inl houter
          · refine .inr ⟨first :: upper, ?_, (hbelow upper).trans hancestor⟩
            exact List.cons_prefix_cons.mpr ⟨rfl, hupper⟩
        · rintro (houter | ⟨upper, hupper, hancestor⟩)
          · exact .inl (List.mem_cons_of_mem directory houter)
          · cases upper with
            | nil =>
                cases hancestor
                exact .inl List.mem_cons_self
            | cons head upper =>
                obtain ⟨rfl, hprefix⟩ := List.cons_prefix_cons.mp hupper
                exact .inr ⟨upper, hprefix, (hbelow upper).symm.trans hancestor⟩
      · rw [List.cons_append, obstacleAt?_of_held hheld hnext (by simp), hobstacle]

/-- A visit on the way to a place: at the place itself or before. -/
def OnWay (fs : FileSystem) (root : Path) (place : List FileName) (visit : Visit) : Prop :=
  ∃ upper, upper <+: place ∧ fs.reachedFrom? root upper = some visit

/-- A link in a directory that is reached from a path. -/
structure LinkAt (fs : FileSystem) (root : Path) (place : List FileName) (directory : Visit)
    (name : FileName) : Prop where
  reached : fs.reachedFrom? root place = some directory
  is_directory : fs.entry? directory.location = some .directory
  is_link : ∃ target, fs.entry? (directory.location ++ [name]) = some (.link target)

/-- On the way to a directory there are only directories. -/
theorem OnWay.is_directory (hway : fs.OnWay root place visit)
    (hreached : fs.reachedFrom? root place = some directory)
    (hdirectory : fs.entry? directory.location = some .directory) :
    fs.entry? visit.location = some .directory := by
  obtain ⟨upper, ⟨rest, rfl⟩, hupper⟩ := hway
  rw [reachedFrom?_append hupper] at hreached
  exact directory_of_reached hreached hdirectory

/-- The obstacle under a name in a directory that is reached from a path is told by the directories
on the way. -/
theorem exists_trail_from (hreached : fs.reachedFrom? root place = some directory)
    (hdirectory : fs.entry? directory.location = some .directory) :
    ∃ trail : List Visit,
      (∀ ancestor, ancestor ∈ directory :: trail ↔ fs.OnWay root place ancestor) ∧
      ∀ name, fs.obstacleFrom? root (place ++ [name]) = fs.obstacle? directory trail name := by
  obtain ⟨location, hresolve, hbelow⟩ := exists_reached_of_reachedFrom hreached
  obtain ⟨trail, hmem, hobstacle⟩ := exists_trail [] hbelow hdirectory
  refine ⟨trail, fun ancestor => ?_, ?_⟩
  · rw [OnWay, reachedFrom?_of_resolve hresolve]
    simpa using hmem ancestor
  · rw [obstacleFrom?_of_resolve hresolve (directory_of_reached hbelow hdirectory)]
    exact hobstacle

namespace LinkAt

/-- A link that leads nowhere is an obstacle. -/
theorem obstacleFrom?_of_lost {cause : OsError} (hlink : fs.LinkAt root place directory name)
    (hresolve : fs.resolve (Path.join directory.path name) = .error cause) :
    fs.obstacleFrom? root (place ++ [name]) =
      some (.os (Path.join directory.path name) cause) := by
  obtain ⟨target, hentry⟩ := hlink.is_link
  obtain ⟨trail, -, hobstacle⟩ := exists_trail_from hlink.reached hlink.is_directory
  rw [hobstacle, obstacle?_of_lost hentry hresolve]

/-- A link that leads to a directory on the way is an obstacle. -/
theorem exists_obstacleFrom?_of_loop {ancestor : Visit}
    (hlink : fs.LinkAt root place directory name) (hway : fs.OnWay root place ancestor)
    (hresolve : fs.resolve (Path.join directory.path name) = .ok ancestor.location) :
    ∃ other, fs.OnWay root place other ∧ other.location = ancestor.location ∧
      fs.obstacleFrom? root (place ++ [name]) =
        some (.loop (Path.join directory.path name) other.path) := by
  obtain ⟨target, hentry⟩ := hlink.is_link
  obtain ⟨trail, hmem, hobstacle⟩ := exists_trail_from hlink.reached hlink.is_directory
  have hfound := hway.is_directory hlink.reached hlink.is_directory
  cases hfind : (directory :: trail).find? (·.location = ancestor.location) with
  | none =>
      have hnot := List.find?_eq_none.mp hfind ancestor ((hmem ancestor).mpr hway)
      exact absurd (decide_eq_true rfl) hnot
  | some other =>
      have hsame : other.location = ancestor.location := by simpa using List.find?_some hfind
      refine ⟨other, (hmem other).mp (List.mem_of_find?_eq_some hfind), hsame, ?_⟩
      rw [hobstacle, obstacle?_of_loop hentry hresolve hfound hfind]

end LinkAt

end OberonImports.FileSystem
