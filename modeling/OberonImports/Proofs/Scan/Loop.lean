import OberonImports.Proofs.FileSystem.Obstacle
import OberonImports.Proofs.Scan.ErrorPolicy

/-!
# The loop of a scan

A scan goes on name by name: it enters a directory, leaves it when its names are used up, and tries
a module file at once, before it walks on. This loop ends, whatever links there are, and with the
result of the scan, which is told as a whole walk and then the files.
-/

namespace OberonImports

/-- A directory in which a scan stands, and the names in it that are still to come. -/
structure OpenDirectory where
  directory : FileSystem.Visit
  names : List FileName

/-- A scan under way: the directories in which it stands, innermost first, and what it has found. Or
a scan that has ended. -/
inductive ScanState where
  | walking (stack : List OpenDirectory) (summary : Summary)
  | ended (result : Except ScanError Summary)

namespace FileSystem

variable {fs : FileSystem} {root : Path} {policy : ErrorPolicy} {stack : List OpenDirectory}
  {summary : Summary} {directory next : Visit} {outer : List Visit} {name : FileName}
  {names others : List FileName} {paths : List Path} {walk innerWalk : Walk}
  {state middle last : ScanState}

/-- Whether a visit is one to a module file. -/
def isModuleFileAt (fs : FileSystem) (visit : Visit) : Bool :=
  (match fs.entry? visit.location with
    | some (.file _) => true
    | _ => false) && Path.isModuleFile visit.path

/-- Try what is no directory, if it is a module file, and go on. -/
def tryVisit (fs : FileSystem) (policy : ErrorPolicy) (stack : List OpenDirectory)
    (summary : Summary) (visit : Visit) : ScanState :=
  if fs.isModuleFileAt visit then
    match fs.extract visit.path, policy with
    | .ok module, _ => .walking stack (summary.addModule module)
    | .error error, .abort => .ended (.error (.module visit.path error))
    | .error error, .collect => .walking stack (summary.addFailure ⟨visit.path, error⟩)
  else .walking stack summary

/-- One step of a scan. -/
def scanStep (fs : FileSystem) (root : Path) (policy : ErrorPolicy) : ScanState → ScanState
  | .ended result => .ended result
  | .walking [] summary => .ended (.ok summary)
  | .walking (⟨_, []⟩ :: stack) summary => .walking stack summary
  | .walking (⟨directory, name :: names⟩ :: stack) summary =>
      match fs.obstacle? directory (stack.map (·.directory)) name with
      | some error => .ended (.error (.walk root error))
      | none =>
          let here := ⟨directory, names⟩ :: stack
          match fs.held? directory name with
          | none => .walking here summary
          | some next =>
              if fs.entry? next.location = some .directory then
                .walking (⟨next, fs.children next.location⟩ :: here) summary
              else fs.tryVisit policy here summary next

/-- Where a scan starts: at the path itself. -/
def scanStart (fs : FileSystem) (root : Path) (policy : ErrorPolicy) : ScanState :=
  match fs.resolve root with
  | .error error => .ended (.error (.walk root (.os root error)))
  | .ok location =>
      if fs.entry? location = some .directory then
        .walking [⟨⟨root, location⟩, fs.children location⟩] .empty
      else fs.tryVisit policy [] .empty ⟨root, location⟩

/-- Some number of steps leads from one state to the other. -/
def ScanReaches (fs : FileSystem) (root : Path) (policy : ErrorPolicy)
    (state last : ScanState) : Prop :=
  ∃ count, (fs.scanStep root policy)^[count] state = last

namespace ScanReaches

theorem refl (state : ScanState) : ScanReaches fs root policy state state := ⟨0, rfl⟩

theorem step (hrest : ScanReaches fs root policy (fs.scanStep root policy state) last) :
    ScanReaches fs root policy state last := by
  obtain ⟨count, hcount⟩ := hrest
  exact ⟨count + 1, hcount⟩

theorem trans (hfirst : ScanReaches fs root policy state middle)
    (hrest : ScanReaches fs root policy middle last) : ScanReaches fs root policy state last := by
  obtain ⟨first, rfl⟩ := hfirst
  obtain ⟨rest, rfl⟩ := hrest
  exact ⟨rest + first, Function.iterate_add_apply _ rest first state⟩

end ScanReaches

/-! ### The files of a walk -/

/-- The paths by which a walk reaches module files. -/
def Walk.moduleFiles (fs : FileSystem) (walk : Walk) : List Path :=
  (walk.files fs).filter Path.isModuleFile

theorem moduleFiles_visit : (Walk.visit next walk).moduleFiles fs =
    if fs.isModuleFileAt next then next.path :: walk.moduleFiles fs else walk.moduleFiles fs := by
  unfold Walk.moduleFiles Walk.files isModuleFileAt
  rw [Walk.visits_visit, List.filter_cons]
  cases fs.entry? next.location with
  | none => rfl
  | some entry =>
      cases entry with
      | directory => rfl
      | link target => rfl
      | file bytes => exact List.filter_cons

theorem isModuleFileAt_of_directory (hnext : fs.entry? next.location = some .directory) :
    fs.isModuleFileAt next = false := by
  simp [isModuleFileAt, hnext]

theorem moduleFiles_visit_of_directory (hnext : fs.entry? next.location = some .directory) :
    (Walk.visit next walk).moduleFiles fs = walk.moduleFiles fs := by
  rw [moduleFiles_visit, isModuleFileAt_of_directory hnext, if_neg Bool.false_ne_true]

theorem moduleFiles_andThen (hstop : innerWalk.stop = none) :
    (innerWalk.andThen walk).moduleFiles fs =
      innerWalk.moduleFiles fs ++ walk.moduleFiles fs := by
  simp [Walk.moduleFiles, Walk.files, Walk.visits_andThen hstop]

/-- Files are tried one after the other. -/
theorem result_scanFiles_append :
    (fs.scanFiles policy summary (paths ++ others)).result =
      (fs.scanFiles policy summary paths).result.bind fun summary =>
        (fs.scanFiles policy summary others).result := by
  induction paths generalizing summary with
  | nil => rfl
  | cons path paths ih =>
      cases hextract : fs.extract path with
      | ok module =>
          rw [List.cons_append, result_scanFiles_cons_of_ok hextract,
            result_scanFiles_cons_of_ok hextract, ih]
      | error error =>
          cases policy with
          | abort =>
              rw [List.cons_append, result_scanFiles_abort_cons_of_error hextract,
                result_scanFiles_abort_cons_of_error hextract]
              rfl
          | collect =>
              rw [List.cons_append, result_scanFiles_collect_cons_of_error hextract,
                result_scanFiles_collect_cons_of_error hextract, ih]

/-! ### Parts of a walk -/

/-- Where a scan goes on when a part of its walk is done. -/
def scanAfter (fs : FileSystem) (root : Path) (policy : ErrorPolicy)
    (stack : List OpenDirectory) (summary : Summary) (walk : Walk) : ScanState :=
  match (fs.scanFiles policy summary (walk.moduleFiles fs)).result with
  | .error error => .ended (.error error)
  | .ok summary =>
      match walk.stop with
      | some error => .ended (.error (.walk root error))
      | none => .walking stack summary

/-- What is no directory is tried at once. -/
theorem scanReaches_tryVisit {here : List OpenDirectory}
    (hrest : ∀ summary, ScanReaches fs root policy (.walking here summary)
      (fs.scanAfter root policy stack summary walk)) :
    ScanReaches fs root policy (fs.tryVisit policy here summary next)
      (fs.scanAfter root policy stack summary (.visit next walk)) := by
  unfold tryVisit scanAfter
  rw [moduleFiles_visit, Walk.stop_visit]
  split
  next hcandidate =>
    cases hextract : fs.extract next.path with
    | ok module =>
        rw [result_scanFiles_cons_of_ok hextract]
        exact hrest (summary.addModule module)
    | error error =>
        cases policy with
        | abort =>
            rw [result_scanFiles_abort_cons_of_error hextract]
            exact .refl _
        | collect =>
            rw [result_scanFiles_collect_cons_of_error hextract]
            exact hrest (summary.addFailure ⟨next.path, error⟩)
  next => exact hrest summary

/-- What a directory holds is scanned before what comes behind it. -/
theorem scanReaches_andThen {here inside : List OpenDirectory}
    (hinner : ScanReaches fs root policy (.walking inside summary)
      (fs.scanAfter root policy here summary innerWalk))
    (hrest : ∀ summary, ScanReaches fs root policy (.walking here summary)
      (fs.scanAfter root policy stack summary walk)) :
    ScanReaches fs root policy (.walking inside summary)
      (fs.scanAfter root policy stack summary (innerWalk.andThen walk)) := by
  apply hinner.trans
  unfold scanAfter
  cases hstop : innerWalk.stop with
  | some error =>
      -- The rest is not walked, so what it would yield does not matter.
      have hsame : innerWalk.andThen walk = innerWalk := by simp [Walk.andThen, hstop]
      rw [hsame, hstop]
      exact .refl _
  | none =>
      have hlater : (innerWalk.andThen walk).stop = walk.stop := by simp [Walk.andThen, hstop]
      rw [moduleFiles_andThen hstop, result_scanFiles_append, hlater]
      cases (fs.scanFiles policy summary (innerWalk.moduleFiles fs)).result with
      | error error => exact .refl _
      | ok summary => exact hrest summary

/-- That a directory is visited does not show. -/
theorem scanAfter_visit_of_directory (hnext : fs.entry? next.location = some .directory) :
    fs.scanAfter root policy stack summary (.visit next walk) =
      fs.scanAfter root policy stack summary walk := by
  simp only [scanAfter, moduleFiles_visit_of_directory hnext, Walk.stop_visit]

/-! ### Steps under a name -/

theorem scanStep_of_obstacle {error : WalkError}
    (hobstacle : fs.obstacle? directory (stack.map (·.directory)) name = some error) :
    fs.scanStep root policy (.walking (⟨directory, name :: names⟩ :: stack) summary) =
      .ended (.error (.walk root error)) := by
  simp only [scanStep, hobstacle]

theorem scanStep_of_not_held
    (hhere : fs.obstacle? directory (stack.map (·.directory)) name = none)
    (hheld : fs.held? directory name = none) :
    fs.scanStep root policy (.walking (⟨directory, name :: names⟩ :: stack) summary) =
      .walking (⟨directory, names⟩ :: stack) summary := by
  simp only [scanStep, hhere, hheld]

theorem scanStep_of_directory
    (hhere : fs.obstacle? directory (stack.map (·.directory)) name = none)
    (hheld : fs.held? directory name = some next)
    (hnext : fs.entry? next.location = some .directory) :
    fs.scanStep root policy (.walking (⟨directory, name :: names⟩ :: stack) summary) =
      .walking (⟨next, fs.children next.location⟩ :: ⟨directory, names⟩ :: stack) summary := by
  simp only [scanStep, hhere, hheld, if_pos hnext]

theorem scanStep_of_not_directory
    (hhere : fs.obstacle? directory (stack.map (·.directory)) name = none)
    (hheld : fs.held? directory name = some next)
    (hnext : fs.entry? next.location ≠ some .directory) :
    fs.scanStep root policy (.walking (⟨directory, name :: names⟩ :: stack) summary) =
      fs.tryVisit policy (⟨directory, names⟩ :: stack) summary next := by
  simp only [scanStep, hhere, hheld, if_neg hnext]

/-! ### Whole runs -/

/-- By induction on the walk: what it visits below a directory the scan has tried when it leaves
the directory. -/
theorem scanReaches_walkNames (stack : List OpenDirectory) (summary : Summary)
    (houter : outer = stack.map (·.directory)) :
    ScanReaches fs root policy (.walking (⟨directory, names⟩ :: stack) summary)
      (fs.scanAfter root policy stack summary (fs.walkNames directory outer names)) := by
  fun_induction fs.walkNames directory outer names generalizing stack summary with
  | case1 => exact .step (.refl _)
  | case2 directory outer name names location hentry ih =>
      apply ScanReaches.step
      rw [scanStep_of_not_held (obstacle?_of_none hentry) (held?_of_none hentry)]
      exact ih stack summary houter
  | case3 directory outer name names path location bytes hentry ih =>
      have hnot : fs.entry? location ≠ some .directory := by simp [hentry]
      apply ScanReaches.step
      rw [scanStep_of_not_directory (obstacle?_of_file hentry) (held?_of_file hentry) hnot]
      exact scanReaches_tryVisit (ih stack · houter)
  | case4 directory outer name names path location hentry ihInner ih =>
      -- The walk visits the directory even if it cannot be opened, the loop does not.
      rw [scanAfter_visit_of_directory hentry]
      apply ScanReaches.step
      cases hresolve : fs.resolve path with
      | error error =>
          rw [scanStep_of_obstacle (obstacle?_of_closed hentry hresolve)]
          exact .refl _
      | ok found =>
          rw [scanStep_of_directory (obstacle?_of_open hentry hresolve)
            (held?_of_directory hentry) hentry]
          exact scanReaches_andThen (ihInner (⟨directory, names⟩ :: stack) summary (houter ▸ rfl))
            (ih stack · houter)
  | case5 directory outer name names path location target hentry error hresolve =>
      apply ScanReaches.step
      rw [scanStep_of_obstacle (obstacle?_of_lost hentry hresolve)]
      exact .refl _
  | case6 directory outer name names path location target hentry found hresolve hfound ancestor
      hancestor =>
      have hhere := obstacle?_of_loop hentry hresolve hfound hancestor
      apply ScanReaches.step
      rw [scanStep_of_obstacle (houter ▸ hhere)]
      exact .refl _
  | case7 directory outer name names path _ _ hentry found hresolve hfound hnew ihInner ih =>
      have hhere := obstacle?_of_new hentry hresolve hnew
      rw [scanAfter_visit_of_directory hfound]
      apply ScanReaches.step
      rw [scanStep_of_directory (houter ▸ hhere) (held?_of_link hentry hresolve) hfound]
      exact scanReaches_andThen (ihInner (⟨directory, names⟩ :: stack) summary (houter ▸ rfl))
        (ih stack · houter)
  | case8 directory outer name names path _ _ hentry found hresolve hnot ih =>
      have hhere : fs.obstacle? directory outer name = none :=
        obstacle?_of_leaf hentry hresolve hnot
      apply ScanReaches.step
      rw [scanStep_of_not_directory (houter ▸ hhere) (held?_of_link hentry hresolve) hnot]
      exact scanReaches_tryVisit (ih stack · houter)

/-- When the whole walk is done, nothing is left to do. -/
theorem scanReaches_scanAfter_nil :
    ScanReaches fs root policy (fs.scanAfter root policy [] .empty (fs.walk root))
      (.ended (fs.scan root policy).result) := by
  have hfiles : fs.candidates root = (fs.walk root).moduleFiles fs := rfl
  rw [result_scan, hfiles, scanAfter]
  cases (fs.scanFiles policy .empty ((fs.walk root).moduleFiles fs)).result with
  | error error => exact .refl _
  | ok summary =>
      cases (fs.walk root).stop with
      | some error => exact .refl _
      | none => exact .step (.refl _)

/-- The loop of a scan ends with its result. -/
theorem scanReaches_scan (fs : FileSystem) (root : Path) (policy : ErrorPolicy) :
    ScanReaches fs root policy (fs.scanStart root policy)
      (.ended (fs.scan root policy).result) := by
  refine .trans ?_ scanReaches_scanAfter_nil
  unfold scanStart walk
  cases fs.resolve root with
  | error error => exact .refl _
  | ok location =>
      by_cases hdirectory : fs.entry? location = some .directory
      · simp only [if_pos hdirectory]
        rw [scanAfter_visit_of_directory hdirectory]
        exact scanReaches_walkNames [] .empty rfl
      · simp only [if_neg hdirectory]
        exact scanReaches_tryVisit fun _ => .refl _

end FileSystem

end OberonImports
