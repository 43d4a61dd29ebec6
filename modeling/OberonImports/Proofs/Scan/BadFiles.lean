import OberonImports.Proofs.FileSystem.Tree
import OberonImports.Proofs.Scan.ErrorPolicy

/-!
# Files that yield no module

In a directory tree without links, a scan that collects failures finds the modules that a scan which
stops at bad files finds when the bad files have been deleted.
-/

namespace OberonImports.FileSystem

variable {fs rest : FileSystem} {gone : List Location} {location : Location} {root path : Path}
  {paths : List Path} {visit : Visit}

/-- The visits of a walk to regular files that have the name of a module file. -/
def candidateVisits (fs : FileSystem) (root : Path) : List Visit :=
  (fs.walk root).visits.filter fun visit =>
    Path.isModuleFile visit.path &&
    match fs.entry? visit.location with
    | some (.file _) => true
    | _ => false

/-- Where the candidates that yield no module stand. -/
def failedLocations (fs : FileSystem) (root : Path) : List Location :=
  ((fs.candidateVisits root).filter fun visit => (fs.failureAt? visit.path).isSome).map (·.location)

/-- The file system from which the candidates that yield no module have been deleted. -/
def withoutFailed (fs : FileSystem) (root : Path) : FileSystem :=
  fs.eraseAll (fs.failedLocations root)

theorem candidates_eq : fs.candidates root = (fs.candidateVisits root).map (·.path) := by
  rw [candidates, Walk.files, candidateVisits, List.filter_map, List.filter_filter]
  rfl

theorem mem_candidateVisits : visit ∈ fs.candidateVisits root ↔
    visit ∈ (fs.walk root).visits ∧ Path.isModuleFile visit.path = true ∧
      ∃ bytes, fs.entry? visit.location = some (.file bytes) := by
  rw [candidateVisits, List.mem_filter, Bool.and_eq_true]
  refine and_congr_right fun _ => and_congr_right fun _ => ?_
  split
  next bytes hentry => simp [hentry]
  next hother => simpa using hother

theorem isSome_failureAt? :
    (fs.failureAt? path).isSome = true ↔ ∃ error, fs.extract path = .error error := by
  unfold failureAt?
  cases fs.extract path <;> simp

/-- A location is one of these if a candidate stands there and yields no module. -/
theorem mem_failedLocations : location ∈ fs.failedLocations root ↔ ∃ path,
    ⟨path, location⟩ ∈ fs.candidateVisits root ∧ ∃ error, fs.extract path = .error error := by
  simp only [failedLocations, List.mem_map, List.mem_filter, isSome_failureAt?]
  constructor
  · rintro ⟨visit, ⟨hvisit, herror⟩, rfl⟩
    exact ⟨visit.path, hvisit, herror⟩
  · rintro ⟨path, hvisit, herror⟩
    exact ⟨⟨path, location⟩, ⟨hvisit, herror⟩, rfl⟩

theorem without_failed (fs : FileSystem) (root : Path) :
    Without fs (fs.failedLocations root) (fs.withoutFailed root) := by
  apply Without.eraseAll
  intro location hfailed
  obtain ⟨path, hvisit, -⟩ := mem_failedLocations.mp hfailed
  exact (mem_candidateVisits.mp hvisit).2.2

/-- What is found by a path to something kept is read as before. -/
theorem Without.extract (hwithout : Without fs gone rest) (hkept : location ∉ gone)
    (hresolve : fs.resolve path = .ok location) : rest.extract path = fs.extract path := by
  simp only [FileSystem.extract, read, hresolve, hwithout.resolve hkept hresolve,
    hwithout.entry_of_kept hkept]

/-- Without some files of a tree, the other candidates are visited. -/
theorem Without.candidateVisits_eq (hwithout : Without fs gone rest) (htree : fs.IsTree location)
    (hresolve : fs.resolve root = .ok location) : rest.candidateVisits root =
      (fs.candidateVisits root).filter (·.location ∉ gone) := by
  rw [candidateVisits, hwithout.walk_eq htree hresolve, Walk.without, List.filter_filter,
    candidateVisits, List.filter_filter]
  apply List.filter_congr
  intro visit _
  by_cases hgone : visit.location ∈ gone
  · simp [hgone]
  · simp [hgone, hwithout.entry_of_kept hgone]

section

variable (htree : fs.IsTree location) (hresolve : fs.resolve root = .ok location)

include htree hresolve

/-- A candidate of a tree is deleted if it yields no module: no other stands at its location. -/
theorem mem_failedLocations_iff (hvisit : visit ∈ fs.candidateVisits root) :
    visit.location ∈ fs.failedLocations root ↔ ∃ error, fs.extract visit.path = .error error := by
  have hbelow := fun {visit : Visit} (hvisit : visit ∈ fs.candidateVisits root) =>
    isBelow_of_mem_walk htree hresolve (mem_candidateVisits.mp hvisit).1
  rw [mem_failedLocations]
  constructor
  · intro ⟨path, hother, herror⟩
    rwa [(hbelow hvisit).eq_of_location (hbelow hother) rfl]
  · intro herror
    exact ⟨visit.path, hvisit, herror⟩

/-- A candidate that yields a module yields it when the others have been deleted. -/
theorem extract_withoutFailed {module : Module} (hpath : path ∈ fs.candidates root)
    (hmodule : fs.extract path = .ok module) :
    (fs.withoutFailed root).extract path = .ok module := by
  rw [candidates_eq] at hpath
  obtain ⟨visit, hvisit, rfl⟩ := List.mem_map.mp hpath
  have hkept : visit.location ∉ fs.failedLocations root := by
    intro hgone
    obtain ⟨error, herror⟩ := (mem_failedLocations_iff htree hresolve hvisit).mp hgone
    rw [hmodule] at herror
    cases herror
  have hbelow := isBelow_of_mem_walk htree hresolve (mem_candidateVisits.mp hvisit).1
  cases hfound : fs.resolve visit.path with
  | error error =>
      rw [extract, read, hfound] at hmodule
      cases hmodule
  | ok found =>
      obtain rfl := hbelow.found found hfound
      rw [(without_failed fs root).extract hkept hfound, hmodule]

/-- Deleting the candidates that yield no module leaves the others, in order. -/
theorem candidates_withoutFailed : (fs.withoutFailed root).candidates root =
    (fs.candidates root).filter fun path => (fs.extract path).toOption.isSome := by
  rw [candidates_eq, candidates_eq, (without_failed fs root).candidateVisits_eq htree hresolve,
    List.filter_map]
  apply congrArg
  apply List.filter_congr
  intro visit hvisit
  have hiff := mem_failedLocations_iff htree hresolve hvisit
  cases hextract : fs.extract visit.path <;> simp_all [Except.toOption]

/-- The candidates that are left yield the same modules and no failure. -/
theorem yields_withoutFailed :
    (fs.withoutFailed root).yields ((fs.withoutFailed root).candidates root) =
      { fs.yields (fs.candidates root) with failures := [] } := by
  rw [candidates_withoutFailed htree hresolve, yields, yields, Summary.mk.injEq]
  constructor
  · rw [List.filterMap_filter]
    apply List.filterMap_congr
    intro path hpath
    cases hextract : fs.extract path with
    | error error => rfl
    | ok module => simp [extract_withoutFailed htree hresolve hpath hextract, Except.toOption]
  · apply List.filterMap_eq_nil_iff.mpr
    intro path hpath
    obtain ⟨hcandidate, hgood⟩ := List.mem_filter.mp hpath
    cases hextract : fs.extract path with
    | error error => simp [hextract, Except.toOption] at hgood
    | ok module =>
        exact failureAt?_eq_none.mpr
          ⟨module, extract_withoutFailed htree hresolve hcandidate hextract⟩

/-- A scan that stops at bad files finds, when they have been deleted, what one that collects them
finds besides them. -/
theorem result_scan_withoutFailed : ((fs.withoutFailed root).scan root .abort).result =
    (fs.scan root .collect).result.map fun summary => { summary with failures := [] } := by
  have hyields := yields_withoutFailed htree hresolve
  rw [result_scan_abort, result_scan_collect, result_scan_collect, hyields,
    (without_failed fs root).walk_eq htree hresolve]
  cases hstop : (fs.walk root).stop <;> simp [Walk.without, hstop, Except.map]

end

end OberonImports.FileSystem
