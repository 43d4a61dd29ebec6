import OberonImports.Proofs.FileSystem.Leads
import OberonImports.Proofs.FileSystem.Reach
import OberonImports.Scan.Summary

/-!
# Scans under both error policies

A scan that collects extracts every candidate, so its summary lists what the candidates yield, in
order. A scan that stops at a bad file takes the same steps up to the first candidate that yields no
module. So the failures that one collects tell where the other stops.
-/

namespace OberonImports.FileSystem

variable {fs : FileSystem} {root path : Path} {paths : List Path} {summary : Summary}

/-- The failure that a file yields, if it yields no module. -/
def failureAt? (fs : FileSystem) (path : Path) : Option Failure :=
  match fs.extract path with
  | .ok _ => none
  | .error error => some ⟨path, error⟩

/-- What files yield, each kind in the order of the files. -/
def yields (fs : FileSystem) (paths : List Path) : Summary :=
  ⟨paths.filterMap fun path => (fs.extract path).toOption, paths.filterMap fs.failureAt?⟩

/-- What was found before, and then what files yield. -/
def foundWith (fs : FileSystem) (summary : Summary) (paths : List Path) : Summary :=
  ⟨summary.modules ++ (fs.yields paths).modules, summary.failures ++ (fs.yields paths).failures⟩

/-- Of a file that can be read, the bytes decide what is extracted. -/
theorem extract_of_read {bytes : List UInt8} (hread : fs.read path = .ok bytes) :
    fs.extract path = match Module.ofBytes? bytes with
    | none => .error .nameNotFound
    | some module => .ok { module with source := some path } := by
  cases hmodule : Module.ofBytes? bytes with
  | none => simp only [extract, hread, hmodule]
  | some module => simp only [extract, hread, hmodule]

/-- An empty file yields no module. -/
theorem extract_of_read_nil (hread : fs.read path = .ok []) :
    fs.extract path = .error .nameNotFound := by
  have hnone : Module.ofBytes? [] = none := by decide +kernel
  rw [extract_of_read hread, hnone]

theorem failureAt?_eq_none :
    fs.failureAt? path = none ↔ ∃ module, fs.extract path = .ok module := by
  unfold failureAt?
  cases fs.extract path <;> simp

theorem failureAt?_eq_some {failure : Failure} :
    fs.failureAt? path = some failure ↔
      failure.path = path ∧ fs.extract path = .error failure.error := by
  obtain ⟨place, cause⟩ := failure
  unfold failureAt?
  cases fs.extract path with
  | ok module => simp
  | error error => simp [eq_comm]

theorem foundWith_nil : fs.foundWith summary [] = summary := by
  simp [foundWith, yields]

theorem foundWith_cons_of_ok {module : Module} (hmodule : fs.extract path = .ok module) :
    fs.foundWith summary (path :: paths) = fs.foundWith (summary.addModule module) paths := by
  simp [foundWith, yields, failureAt?, Summary.addModule, hmodule, Except.toOption]

theorem foundWith_cons_of_error {error : ExtractError} (herror : fs.extract path = .error error) :
    fs.foundWith summary (path :: paths) =
      fs.foundWith (summary.addFailure ⟨path, error⟩) paths := by
  simp [foundWith, yields, failureAt?, Summary.addFailure, herror, Except.toOption]

/-- A file that yields a module adds it, whatever the policy. -/
theorem result_scanFiles_cons_of_ok {policy : ErrorPolicy} {module : Module}
    (hmodule : fs.extract path = .ok module) :
    (fs.scanFiles policy summary (path :: paths)).result =
      (fs.scanFiles policy (summary.addModule module) paths).result := by
  simp only [scanFiles, hmodule, Logged.result_bind, Logged.result_log]
  rfl

theorem result_scanFiles_collect_cons_of_error {error : ExtractError}
    (herror : fs.extract path = .error error) :
    (fs.scanFiles .collect summary (path :: paths)).result =
      (fs.scanFiles .collect (summary.addFailure ⟨path, error⟩) paths).result := by
  simp only [scanFiles, herror, Logged.result_bind, Logged.result_log]
  rfl

theorem result_scanFiles_abort_cons_of_error {error : ExtractError}
    (herror : fs.extract path = .error error) :
    (fs.scanFiles .abort summary (path :: paths)).result = .error (.module path error) := by
  simp only [scanFiles, herror, Logged.result_bind, Logged.result_log]
  rfl

/-- Collecting adds what all files yield. -/
theorem result_scanFiles_collect :
    (fs.scanFiles .collect summary paths).result = .ok (fs.foundWith summary paths) := by
  induction paths generalizing summary with
  | nil => rw [foundWith_nil]; rfl
  | cons path paths ih =>
      cases hextract : fs.extract path with
      | ok module =>
          rw [result_scanFiles_cons_of_ok hextract, ih, foundWith_cons_of_ok hextract]
      | error error =>
          rw [result_scanFiles_collect_cons_of_error hextract, ih,
            foundWith_cons_of_error hextract]

/-- Stopping adds what all files yield, unless one of them yields a failure: the first is the
error. -/
theorem result_scanFiles_abort :
    (fs.scanFiles .abort summary paths).result =
      match (fs.yields paths).failures with
      | [] => .ok (fs.foundWith summary paths)
      | failure :: _ => .error (.module failure.path failure.error) := by
  induction paths generalizing summary with
  | nil => rw [foundWith_nil]; rfl
  | cons path paths ih =>
      cases hextract : fs.extract path with
      | ok module =>
          have hnone : fs.failureAt? path = none := failureAt?_eq_none.mpr ⟨module, hextract⟩
          have hsame : (fs.yields (path :: paths)).failures = (fs.yields paths).failures :=
            List.filterMap_cons_none hnone
          rw [result_scanFiles_cons_of_ok hextract, ih, foundWith_cons_of_ok hextract, hsame]
      | error error =>
          have hsome : fs.failureAt? path = some ⟨path, error⟩ :=
            failureAt?_eq_some.mpr ⟨rfl, hextract⟩
          have hcons : (fs.yields (path :: paths)).failures =
              ⟨path, error⟩ :: (fs.yields paths).failures := List.filterMap_cons_some hsome
          rw [result_scanFiles_abort_cons_of_error hextract, hcons]

/-- A scan is what the files yield, unless the walk ended early. -/
theorem result_scan {policy : ErrorPolicy} :
    (fs.scan root policy).result =
      (fs.scanFiles policy .empty (fs.candidates root)).result.bind fun summary =>
        match (fs.walk root).stop with
        | none => .ok summary
        | some error => .error (.walk root error) := by
  simp only [scan, Logged.result_bind, Logged.result_log]
  cases (fs.walk root).stop <;> rfl

theorem foundWith_empty : fs.foundWith .empty paths = fs.yields paths := by
  simp [foundWith, Summary.empty]

theorem result_scan_collect :
    (fs.scan root .collect).result =
      match (fs.walk root).stop with
      | none => .ok (fs.yields (fs.candidates root))
      | some error => .error (.walk root error) := by
  rw [result_scan, result_scanFiles_collect, foundWith_empty]
  rfl

/-- A scan that stops at bad files fails with the first of them, and ends like one that collects if
there is none. -/
theorem result_scan_abort :
    (fs.scan root .abort).result =
      match (fs.yields (fs.candidates root)).failures with
      | [] => (fs.scan root .collect).result
      | failure :: _ => .error (.module failure.path failure.error) := by
  rw [result_scan, result_scanFiles_abort]
  cases hfailures : (fs.yields (fs.candidates root)).failures with
  | nil => rw [result_scan, result_scanFiles_collect]
  | cons failure failures => rfl

/-- A scan that collects failures comes to its end if the walk does. -/
theorem result_scan_collect_eq_ok : (fs.scan root .collect).result = .ok summary ↔
    (fs.walk root).stop = none ∧ fs.yields (fs.candidates root) = summary := by
  rw [result_scan_collect]
  cases (fs.walk root).stop <;> simp

/-- A scan that stops at bad files comes to its end if there are none besides. -/
theorem result_scan_abort_eq_ok : (fs.scan root .abort).result = .ok summary ↔
    (fs.scan root .collect).result = .ok summary ∧ summary.failures = [] := by
  rw [result_scan_abort]
  cases hfailures : (fs.yields (fs.candidates root)).failures with
  | nil =>
      refine ⟨fun hscan => ⟨hscan, ?_⟩, And.left⟩
      rw [← (result_scan_collect_eq_ok.mp hscan).2, hfailures]
  | cons failure failures =>
      simp only [reduceCtorEq, false_iff, not_and]
      intro hscan hnone
      rw [← (result_scan_collect_eq_ok.mp hscan).2, hfailures] at hnone
      cases hnone

/-- A file is the first among some that yields no module, for the given reason. -/
structure FirstBad (fs : FileSystem) (paths : List Path) (path : Path) (error : ExtractError) :
    Prop where
  extract_eq : fs.extract path = .error error
  good_before : ∃ good rest, paths = good ++ path :: rest ∧
    ∀ earlier ∈ good, ∃ module, fs.extract earlier = .ok module

theorem failures_yields_eq_nil :
    (fs.yields paths).failures = [] ↔ ∀ path ∈ paths, ∃ module, fs.extract path = .ok module := by
  simp only [yields, List.filterMap_eq_nil_iff, failureAt?_eq_none]

/-- The first failure is that of the first bad file. -/
theorem firstBad_of_failures {failure : Failure} {failures : List Failure}
    (hfailures : (fs.yields paths).failures = failure :: failures) :
    fs.FirstBad paths failure.path failure.error := by
  obtain ⟨good, path, rest, rfl, hgood, hbad, -⟩ := List.filterMap_eq_cons_iff.mp hfailures
  obtain ⟨rfl, herror⟩ := failureAt?_eq_some.mp hbad
  exact ⟨herror, good, rest, rfl, fun earlier hmem => failureAt?_eq_none.mp (hgood earlier hmem)⟩

/-- The two error policies agree on one walk. Stopping succeeds exactly if collecting succeeds
without failures, and with the same summary. If collecting finds failures, stopping ends with the
first of them. If the walk ends early, collecting ends with its error, and so does stopping, unless
some file visited before is bad: then it ends with the first of these. Collecting fails on no
file. -/
theorem scan_policies_agree (fs : FileSystem) (root : Path) :
    (∀ summary, (fs.scan root .abort).result = .ok summary ↔
      (fs.scan root .collect).result = .ok summary ∧ summary.failures = []) ∧
    (∀ summary failure failures, (fs.scan root .collect).result = .ok summary →
      summary.failures = failure :: failures →
      (fs.scan root .abort).result = .error (.module failure.path failure.error)) ∧
    (∀ place error, (fs.scan root .collect).result = .error (.walk place error) →
      ((∀ path ∈ fs.candidates root, ∃ module, fs.extract path = .ok module) ∧
        (fs.scan root .abort).result = .error (.walk place error)) ∨
      ∃ path cause, fs.FirstBad (fs.candidates root) path cause ∧
        (fs.scan root .abort).result = .error (.module path cause)) ∧
    (∀ path error, (fs.scan root .collect).result ≠ .error (.module path error)) := by
  have hcollect : (fs.scan root .collect).result = _ := result_scan_collect
  have habort : (fs.scan root .abort).result = _ := result_scan_abort
  cases hfailures : (fs.yields (fs.candidates root)).failures with
  | nil =>
      have hgood := failures_yields_eq_nil.mp hfailures
      rw [hfailures] at habort
      cases hstop : (fs.walk root).stop with
      | none =>
          rw [hstop] at hcollect
          rw [habort, hcollect]
          refine ⟨?_, ?_, by simp, by simp⟩
          · rintro summary
            simp only [Except.ok.injEq, iff_self_and]
            rintro rfl
            exact hfailures
          · rintro _ failure failures ⟨⟩ hsome
            rw [hfailures] at hsome
            cases hsome
      | some error =>
          rw [hstop] at hcollect
          rw [habort, hcollect]
          exact ⟨by simp, by simp, fun place cause hwalk => .inl ⟨hgood, hwalk⟩, by simp⟩
  | cons failure failures =>
      have hfirst := firstBad_of_failures hfailures
      rw [hfailures] at habort
      cases hstop : (fs.walk root).stop with
      | none =>
          rw [hstop] at hcollect
          rw [habort, hcollect]
          refine ⟨?_, ?_, by simp, by simp⟩
          · rintro summary
            simp only [reduceCtorEq, false_iff, not_and]
            rintro ⟨⟩
            simp [hfailures]
          · rintro _ first others ⟨⟩ hsome
            obtain ⟨rfl, -⟩ := List.cons.inj (hfailures.symm.trans hsome)
            rfl
      | some error =>
          rw [hstop] at hcollect
          rw [habort, hcollect]
          exact ⟨by simp, by simp, fun place cause hwalk => .inr ⟨_, _, hfirst, rfl⟩, by simp⟩

/-- A directory with an empty module file and, behind it, a link that leads nowhere. -/
def badTree : FileSystem where
  entries := [(["r"], .directory), (["r", "A.Mod"], .file []), (["r", "B"], .link "gone")]
  distinct := by decide
  cwd := []

theorem resolve_badTree : badTree.resolve "r" = .ok ["r"] ∧
    badTree.resolve "r/A.Mod" = .ok ["r", "A.Mod"] ∧ badTree.resolve "r/B" = .error .notFound := by
  refine ⟨?_, ?_, ?_⟩
  · exact resolve_eq_ok.mpr ⟨by decide, by decide, by decide,
      .down rfl (by decide) (by decide) rfl nofun .here⟩
  · exact resolve_eq_ok.mpr ⟨by decide, by decide, by decide,
      .down rfl (by decide) (by decide) rfl nofun <|
        .down rfl (by decide) (by decide) rfl nofun .here⟩
  · rw [resolve_eq_followNames (by decide) (by decide) (by decide)]
    exact (followNames_down rfl (by decide) (by decide) rfl (by simp)).trans <|
      (followNames_link rfl (by decide) (by decide) rfl).trans (followNames_step rfl (by decide))

/-- The walk of the directory visits the file and ends at the link. -/
theorem walk_badTree : badTree.walk "r" =
    ⟨[⟨"r", ["r"]⟩, ⟨"r/A.Mod", ["r", "A.Mod"]⟩], some (.os "r/B" .notFound)⟩ := by
  obtain ⟨hroot, -, hlink⟩ := resolve_badTree
  have hchildren : badTree.children ["r"] = (["A.Mod", "B"] : List FileName) :=
    mergeSort_eq_of_perm (by decide) (by decide)
  have hfile : badTree.held? ⟨"r", ["r"]⟩ "A.Mod" = some ⟨"r/A.Mod", ["r", "A.Mod"]⟩ := rfl
  rw [walk_of_directory hroot rfl, hchildren, walkNames_of_not_directory hfile (by decide),
    walkNames_of_dangling rfl hlink]
  rfl

theorem extract_badTree : badTree.extract "r/A.Mod" = .error .nameNotFound := by
  have hread : badTree.read "r/A.Mod" = .ok [] := by
    rw [read, resolve_badTree.2.1]
    rfl
  exact extract_of_read_nil hread

theorem scan_badTree :
    (badTree.scan "r/A.Mod" .collect).result = .ok ⟨[], [⟨"r/A.Mod", .nameNotFound⟩]⟩ ∧
    (badTree.scan "r/A.Mod" .abort).result = .error (.module "r/A.Mod" .nameNotFound) ∧
    (badTree.scan "r" .collect).result = .error (.walk "r" (.os "r/B" .notFound)) ∧
    (badTree.scan "r" .abort).result = .error (.module "r/A.Mod" .nameNotFound) := by
  have hwalk : badTree.walk "r/A.Mod" = ⟨[⟨"r/A.Mod", ["r", "A.Mod"]⟩], none⟩ := by
    rw [walk_of_not_directory resolve_badTree.2.1 (by decide)]
    rfl
  have hyields : badTree.yields ["r/A.Mod"] = ⟨[], [⟨"r/A.Mod", .nameNotFound⟩]⟩ := by
    simp [yields, failureAt?, extract_badTree, Except.toOption]
  have hfile : badTree.candidates "r/A.Mod" = [Path.ofText "r/A.Mod"] := by
    rw [candidates, hwalk]
    rfl
  have hfiles : badTree.candidates "r" = [Path.ofText "r/A.Mod"] := by
    rw [candidates, walk_badTree]
    rfl
  have hok : (badTree.scan "r/A.Mod" .collect).result = .ok ⟨[], [⟨"r/A.Mod", .nameNotFound⟩]⟩ := by
    rw [result_scan_collect, hwalk, hfile, hyields]
  have herror : (badTree.scan "r" .collect).result = .error (.walk "r" (.os "r/B" .notFound)) := by
    rw [result_scan_collect, walk_badTree]
  obtain ⟨-, hfirst, -⟩ := scan_policies_agree badTree "r/A.Mod"
  obtain ⟨-, -, hends, -⟩ := scan_policies_agree badTree "r"
  refine ⟨hok, hfirst _ _ _ hok rfl, herror, ?_⟩
  rcases hends _ _ herror with ⟨hgood, -⟩ | ⟨path, cause, hbad, habort⟩
  · obtain ⟨module, hmodule⟩ := hgood "r/A.Mod" (by rw [hfiles]; exact List.mem_cons_self)
    rw [extract_badTree] at hmodule
    cases hmodule
  · obtain ⟨herror, good, rest, hsplit, -⟩ := hbad
    have hmem : path ∈ badTree.candidates "r" := by simp [hsplit]
    rw [hfiles] at hmem
    obtain rfl := List.mem_singleton.mp hmem
    rw [extract_badTree] at herror
    cases herror
    exact habort

end OberonImports.FileSystem
