import OberonImports.Proofs.FileSystem.Nesting
import OberonImports.Proofs.Scan.Candidates
import OberonImports.Proofs.Scan.Loop

/-!
# Scans end

Whatever links there are, the loop of a scan ends. A link to a directory on the way and a link that
leads nowhere are never passed over: the scan ends with an error, at the link or at an earlier
place. A scan that succeeds has stood in no directory twice at a time.
-/

namespace OberonImports.FileSystem

variable {fs : FileSystem} {root : Path} {name : FileName} {policy : ErrorPolicy}
  {names place : List FileName} {directory next visit ancestor : Visit} {outer : List Visit}
  {stack : List OpenDirectory}
  {summary : Summary} {state : ScanState}

/-! ### Errors -/

/-- What a scan can end with at a place: an obstacle there, or the file there that yields no module,
if the policy is to stop. -/
inductive MetAt (fs : FileSystem) (root : Path) (policy : ErrorPolicy) (place : List FileName) :
    ScanError → Prop where
  | walk {error : WalkError} (hobstacle : fs.obstacleFrom? root place = some error) :
      MetAt fs root policy place (.walk root error)
  | module {path : Path} {location : Location} {bytes : List UInt8} {cause : ExtractError}
      (habort : policy = .abort) (hreached : fs.reachedFrom? root place = some ⟨path, location⟩)
      (hentry : fs.entry? location = some (.file bytes)) (hfile : Path.isModuleFile path = true)
      (hextract : fs.extract path = .error cause) :
      MetAt fs root policy place (.module path cause)

/-- A bad file that a walk visits stands before the obstacle that ends the walk. -/
theorem FirstObstacle.exists_metAt_of_failure {error : WalkError} {failure : Failure}
    {failures : List Failure} (hfirst : FirstObstacle fs root error place)
    (hfailures : (fs.yields (fs.candidates root)).failures = failure :: failures) :
    ∃ earlier, earlier < place ∧
      MetAt fs root .abort earlier (.module failure.path failure.error) := by
  obtain ⟨hextract, good, rest, hsplit, -⟩ := firstBad_of_failures hfailures
  have hmem : failure.path ∈ fs.candidates root := by
    rw [hsplit]
    exact List.mem_append_right good List.mem_cons_self
  obtain ⟨hvisited, hfile⟩ := List.mem_filter.mp hmem
  obtain ⟨location, bytes, hvisit, hentry⟩ := mem_files.mp hvisited
  obtain ⟨earlier, hreached, hlt⟩ := hfirst.before _ hvisit (by simp [hentry])
  exact ⟨earlier, hlt, .module rfl hreached hentry hfile hextract⟩

/-- A scan that has an obstacle in its way ends with an error: with that of this obstacle, or with
one that is met before. -/
theorem scan_of_obstacle (policy : ErrorPolicy) {error : WalkError}
    (hobstacle : fs.obstacleFrom? root place = some error) :
    ∃ cause, (fs.scan root policy).result = .error cause ∧
      (cause = .walk root error ∨
        ∃ earlier, earlier < place ∧ MetAt fs root policy earlier cause) := by
  cases hstop : (fs.walk root).stop with
  | none =>
      rw [obstacleFrom?_eq_none hstop] at hobstacle
      cases hobstacle
  | some cause =>
      -- The walk ends at the first obstacle, which is this one or stands before it.
      obtain ⟨lowest, hfirst⟩ := exists_firstObstacle hstop
      have hcollect : (fs.scan root .collect).result = .error (.walk root cause) := by
        rw [result_scan_collect, hstop]
      have hwalk : ScanError.walk root cause = .walk root error ∨
          ∃ earlier, earlier < place ∧ MetAt fs root policy earlier (.walk root cause) := by
        rcases hfirst.least place error hobstacle with rfl | hlt
        · rw [hfirst.obstacle] at hobstacle
          cases hobstacle
          exact .inl rfl
        · exact .inr ⟨lowest, hlt, .walk hfirst.obstacle⟩
      cases policy with
      | collect => exact ⟨_, hcollect, hwalk⟩
      | abort =>
          cases hfailures : (fs.yields (fs.candidates root)).failures with
          | nil => exact ⟨_, by rw [result_scan_abort, hfailures, hcollect], hwalk⟩
          | cons failure failures =>
              -- A bad file ends the scan before the walk has come to its obstacle.
              obtain ⟨earlier, hlt, hmet⟩ := hfirst.exists_metAt_of_failure hfailures
              refine ⟨_, by rw [result_scan_abort, hfailures], .inr ⟨earlier, ?_, hmet⟩⟩
              rcases hfirst.least place error hobstacle with rfl | hle
              · exact hlt
              · exact List.lt_trans hlt hle

/-- A root that leads nowhere is met before all else. -/
theorem scan_of_lost_root {cause : OsError} (hresolve : fs.resolve root = .error cause) :
    (fs.scan root policy).result = .error (.walk root (.os root cause)) := by
  have hobstacle : fs.obstacleFrom? root [] = some (.os root cause) := by
    simp only [obstacleFrom?, hresolve, if_true]
  obtain ⟨error, hscan, rfl | ⟨earlier, hlt, -⟩⟩ := scan_of_obstacle policy hobstacle
  · exact hscan
  · exact absurd hlt (List.not_lt_nil earlier)

/-- Whatever the policy, a scan succeeds only if its walk comes to its end. -/
theorem stop_of_scan_eq_ok (hscan : (fs.scan root policy).result = .ok summary) :
    (fs.walk root).stop = none := by
  cases policy with
  | collect => exact (result_scan_collect_eq_ok.mp hscan).1
  | abort => exact (result_scan_collect_eq_ok.mp (result_scan_abort_eq_ok.mp hscan).1).1

/-! ### Open directories -/

/-- A scan stands in a directory at a place, and in those of `outer` on the way there, innermost
first. -/
inductive StandsIn (fs : FileSystem) (root : Path) : Visit → List Visit → List FileName → Prop where
  | root {directory : Visit} (hreached : fs.reachedFrom? root [] = some directory)
      (hdirectory : fs.entry? directory.location = some .directory) :
      StandsIn fs root directory [] []
  | enter {directory next : Visit} {outer : List Visit} {name : FileName} {place : List FileName}
      (houter : StandsIn fs root directory outer place)
      (hheld : fs.held? directory name = some next)
      (hnext : fs.entry? next.location = some .directory) :
      StandsIn fs root next (directory :: outer) (place ++ [name])

namespace StandsIn

theorem is_directory (hstands : StandsIn fs root directory outer place) :
    fs.entry? directory.location = some .directory := by
  cases hstands with
  | root _ hdirectory => exact hdirectory
  | enter _ _ hnext => exact hnext

theorem reached (hstands : StandsIn fs root directory outer place) :
    fs.reachedFrom? root place = some directory := by
  induction hstands with
  | root hreached _ => exact hreached
  | enter houter hheld _ ih =>
      exact (reachedFrom?_append ih _).trans (reached?_cons houter.is_directory hheld)

/-- The outer ones stand at shorter places on the way. -/
theorem exists_of_mem (hstands : StandsIn fs root directory outer place)
    (hvisit : visit ∈ outer) :
    ∃ upper, upper <+: place ∧ upper ≠ place ∧ fs.reachedFrom? root upper = some visit := by
  induction hstands with
  | root => cases hvisit
  | @enter _ _ _ name place houter _ _ ih =>
      have hlonger : place <+: place ++ [name] := List.prefix_append place [name]
      rcases List.mem_cons.mp hvisit with rfl | hmem
      · exact ⟨place, hlonger, by simp, houter.reached⟩
      · obtain ⟨upper, hupper, -, hreached⟩ := ih hmem
        refine ⟨upper, hupper.trans hlonger, ?_, hreached⟩
        rintro rfl
        have hlength := hupper.length_le
        rw [List.length_append, List.length_singleton] at hlength
        omega

/-- A scan whose walk comes to its end stands in different directories. By induction on the way. -/
theorem nodup_locations (hnamed : fs.WellNamed) (hstop : (fs.walk root).stop = none)
    (hstands : StandsIn fs root directory outer place) :
    ((directory :: outer).map (·.location)).Nodup := by
  induction hstands with
  | root => exact List.nodup_singleton _
  | enter houter hheld hnext ih =>
      apply List.nodup_cons.mpr ⟨?_, ih⟩
      intro hmem
      obtain ⟨visit, hvisit, hsame⟩ := List.mem_map.mp hmem
      -- One of the outer directories would stand where the innermost one does.
      have hstands := houter.enter hheld hnext
      obtain ⟨upper, hupper, hne, hreached⟩ := hstands.exists_of_mem hvisit
      exact location_ne_of_prefix hnamed hstop hupper hne hreached hstands.reached hsame.symm

end StandsIn

/-- The open directories of a scan under way are those on the way to a place. -/
def Standing (fs : FileSystem) (root : Path) : ScanState → Prop
  | .walking (here :: stack) _ =>
      ∃ place, StandsIn fs root here.directory (stack.map (·.directory)) place
  | _ => True

theorem Standing.nodup_locations (hnamed : fs.WellNamed) (hstop : (fs.walk root).stop = none)
    (hstands : fs.Standing root (.walking stack summary)) :
    (stack.map (·.directory.location)).Nodup := by
  cases stack with
  | nil => exact List.nodup_nil
  | cons here stack =>
      obtain ⟨place, hstands⟩ := hstands
      simpa [Function.comp_def] using hstands.nodup_locations hnamed hstop

/-- What is tried leaves the open directories as they are. -/
theorem standing_tryVisit (hstands : ∀ summary, fs.Standing root (.walking stack summary)) :
    fs.Standing root (fs.tryVisit policy stack summary visit) := by
  unfold tryVisit
  split
  next =>
    split
    next => exact hstands _
    next => trivial
    next => exact hstands _
  next => exact hstands summary

theorem standing_scanStart : fs.Standing root (fs.scanStart root policy) := by
  unfold scanStart
  split
  next => trivial
  next location hresolve =>
    split
    next hdirectory =>
      have hreached : fs.reachedFrom? root [] = some ⟨root, location⟩ := by
        rw [reachedFrom?_of_resolve hresolve]
        rfl
      exact ⟨[], .root hreached hdirectory⟩
    next => exact standing_tryVisit fun _ => trivial

/-- A step leaves a directory, enters one that the innermost one holds, or stays. -/
theorem Standing.scanStep (hstands : fs.Standing root state) :
    fs.Standing root (fs.scanStep root policy state) := by
  unfold FileSystem.scanStep
  split
  next => trivial
  next => trivial
  next directory stack summary =>
    obtain ⟨place, hplace⟩ := hstands
    cases stack with
    | nil => trivial
    | cons here stack =>
        -- Below the innermost directory stands the one that it was entered from.
        cases hplace with
        | enter houter _ _ => exact ⟨_, houter⟩
  next directory name names stack summary =>
    obtain ⟨place, hplace⟩ := hstands
    split
    next => trivial
    next =>
      split
      next => exact ⟨place, hplace⟩
      next next hheld =>
        split
        next hnext => exact ⟨place ++ [name], hplace.enter hheld hnext⟩
        next => exact standing_tryVisit fun _ => ⟨place, hplace⟩

theorem standing_iterate (count : Nat) :
    fs.Standing root ((fs.scanStep root policy)^[count] (fs.scanStart root policy)) := by
  induction count with
  | zero => exact standing_scanStart
  | succ count ih =>
      rw [Function.iterate_succ_apply']
      exact ih.scanStep

/-! ### Links of all kinds -/

/-- The loop of a scan ends, with the result of the scan. A link that is reached and that leads to a
directory on the way there makes the scan fail, with the error that tells so or with one met at an
earlier place, and so does a link that leads nowhere, be it the root itself. If the scan succeeds,
it has visited all that is reached from the root, nothing that it has visited stands below itself,
and it has stood in no directory twice at a time. -/
theorem scan_ends (fs : FileSystem) (root : Path) (policy : ErrorPolicy) :
    (∃ count, (fs.scanStep root policy)^[count] (fs.scanStart root policy) =
      .ended (fs.scan root policy).result) ∧
    (∀ place directory name ancestor, fs.LinkAt root place directory name →
      fs.OnWay root place ancestor →
      fs.resolve (Path.join directory.path name) = .ok ancestor.location →
      ∃ error, (fs.scan root policy).result = .error error ∧
        ((∃ other, fs.OnWay root place other ∧ other.location = ancestor.location ∧
            error = .walk root (.loop (Path.join directory.path name) other.path)) ∨
          ∃ earlier, earlier < place ++ [name] ∧ MetAt fs root policy earlier error)) ∧
    (∀ place directory name cause, fs.LinkAt root place directory name →
      fs.resolve (Path.join directory.path name) = .error cause →
      ∃ error, (fs.scan root policy).result = .error error ∧
        (error = .walk root (.os (Path.join directory.path name) cause) ∨
          ∃ earlier, earlier < place ++ [name] ∧ MetAt fs root policy earlier error)) ∧
    (∀ cause, fs.resolve root = .error cause →
      (fs.scan root policy).result = .error (.walk root (.os root cause))) ∧
    (∀ summary, (fs.scan root policy).result = .ok summary →
      (∀ visit, visit ∈ (fs.walk root).visits ↔
        ∃ place, fs.reachedFrom? root place = some visit) ∧
      (fs.WellNamed →
        (∀ upper place ancestor visit, upper <+: place → upper ≠ place →
          fs.reachedFrom? root upper = some ancestor → fs.reachedFrom? root place = some visit →
          visit.location ≠ ancestor.location) ∧
        ∀ count stack found, (fs.scanStep root policy)^[count] (fs.scanStart root policy) =
          .walking stack found → (stack.map (·.directory.location)).Nodup)) := by
  refine ⟨scanReaches_scan fs root policy, ?_, ?_, ?_, ?_⟩
  · intro place directory name ancestor hlink hway hresolve
    obtain ⟨other, hother, hsame, hobstacle⟩ := hlink.exists_obstacleFrom?_of_loop hway hresolve
    obtain ⟨error, hscan, hcause⟩ := scan_of_obstacle policy hobstacle
    exact ⟨error, hscan, hcause.imp_left fun herror => ⟨other, hother, hsame, herror⟩⟩
  · intro place directory name cause hlink hresolve
    exact scan_of_obstacle policy (hlink.obstacleFrom?_of_lost hresolve)
  · intro cause hresolve
    exact scan_of_lost_root hresolve
  · intro summary hscan
    have hstop := stop_of_scan_eq_ok hscan
    refine ⟨fun visit => mem_visits_walk hstop, fun hnamed => ⟨?_, ?_⟩⟩
    · intro upper place ancestor visit hupper hne hancestor hvisit
      exact location_ne_of_prefix hnamed hstop hupper hne hancestor hvisit
    · intro count stack found hstate
      have hstands : fs.Standing root (.walking stack found) := hstate ▸ standing_iterate count
      exact hstands.nodup_locations hnamed hstop

/-- A directory that holds a link to itself, and one that holds a link that leads nowhere. -/
def knotTree : FileSystem where
  entries := [(["a"], .directory), (["a", "up"], .link "/a"), (["b"], .directory),
    (["b", "gone"], .link "lost")]
  distinct := by decide
  cwd := []

theorem resolve_knotTree : knotTree.resolve "a" = .ok ["a"] ∧ knotTree.resolve "b" = .ok ["b"] ∧
    knotTree.resolve "a/up" = .ok ["a"] ∧ knotTree.resolve "b/gone" = .error .notFound ∧
    knotTree.resolve "lost" = .error .notFound := by
  refine ⟨?_, ?_, ?_, ?_, ?_⟩
  · exact resolve_eq_ok.mpr ⟨by decide, by decide, by decide,
      .down rfl (by decide) (by decide) rfl nofun .here⟩
  · exact resolve_eq_ok.mpr ⟨by decide, by decide, by decide,
      .down rfl (by decide) (by decide) rfl nofun .here⟩
  · exact resolve_eq_ok.mpr ⟨by decide, by decide, by decide,
      .down rfl (by decide) (by decide) rfl nofun <|
        .link rfl (by decide) (by decide) rfl <|
          .stay rfl (.inl rfl) (.down rfl (by decide) (by decide) rfl nofun .here)⟩
  · rw [resolve_eq_followNames (by decide) (by decide) (by decide)]
    exact (followNames_down rfl (by decide) (by decide) rfl (by simp)).trans <|
      (followNames_link rfl (by decide) (by decide) rfl).trans (followNames_step rfl (by decide))
  · rw [resolve_eq_followNames (by decide) (by decide) (by decide)]
    exact followNames_step rfl (by decide)

theorem linkAt_knotTree : knotTree.LinkAt "a" [] ⟨"a", ["a"]⟩ "up" ∧
    knotTree.LinkAt "b" [] ⟨"b", ["b"]⟩ "gone" := by
  obtain ⟨hloop, hlost, -⟩ := resolve_knotTree
  refine ⟨⟨?_, rfl, "/a", rfl⟩, ⟨?_, rfl, "lost", rfl⟩⟩
  · rw [reachedFrom?_of_resolve hloop]
    rfl
  · rw [reachedFrom?_of_resolve hlost]
    rfl

theorem scan_knotTree :
    (∃ error, (knotTree.scan "a" .collect).result = .error error ∧
      ((∃ other, knotTree.OnWay "a" [] other ∧ other.location = [Path.ofText "a"] ∧
          error = .walk "a" (.loop "a/up" other.path)) ∨
        ∃ earlier, earlier < [Path.ofText "up"] ∧ MetAt knotTree "a" .collect earlier error)) ∧
    (∃ error, (knotTree.scan "b" .abort).result = .error error ∧
      (error = .walk "b" (.os "b/gone" .notFound) ∨
        ∃ earlier, earlier < [Path.ofText "gone"] ∧ MetAt knotTree "b" .abort earlier error)) ∧
    (knotTree.scan "lost" .abort).result = .error (.walk "lost" (.os "lost" .notFound)) ∧
    (∃ summary, (linkedTree.scan "/" .collect).result = .ok summary) ∧
    linkedTree.WellNamed ∧
    (∀ count stack found,
      (linkedTree.scanStep "/" .collect)^[count] (linkedTree.scanStart "/" .collect) =
        .walking stack found → (stack.map (·.directory.location)).Nodup) := by
  obtain ⟨hloop, hlost⟩ := linkAt_knotTree
  have hway : knotTree.OnWay "a" [] ⟨"a", ["a"]⟩ := ⟨[], List.nil_prefix, hloop.reached⟩
  obtain ⟨-, -, hback, hgone, hmissing⟩ := resolve_knotTree
  have hscan : (linkedTree.scan "/" .collect).result = .ok (linkedTree.yields _) :=
    result_scan_collect_eq_ok.mpr ⟨by rw [walk_linkedTree], rfl⟩
  have hnamed : linkedTree.WellNamed := by
    unfold WellNamed IsFileName IsStep Path.IsEntryName
    decide
  obtain ⟨-, hends, -⟩ := scan_ends knotTree "a" .collect
  obtain ⟨-, -, hfails, -⟩ := scan_ends knotTree "b" .abort
  obtain ⟨-, -, -, hnone, -⟩ := scan_ends knotTree "lost" .abort
  obtain ⟨-, -, -, -, hok⟩ := scan_ends linkedTree "/" .collect
  refine ⟨hends _ _ _ _ hloop hway hback, hfails _ _ _ _ hlost hgone, hnone _ hmissing,
    ⟨_, hscan⟩, hnamed, ?_⟩
  obtain ⟨-, hdistinct⟩ := hok _ hscan
  exact (hdistinct hnamed).2

end OberonImports.FileSystem
