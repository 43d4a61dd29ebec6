import OberonImports.Analysis
import OberonImports.Proofs.Scan.BadFiles

/-!
# Analyses under both error policies

An analysis depends on the file system through its scan alone. One that stops at bad files comes to
its end if one that collects them finds none. Deleting the bad files of a directory tree without
links makes it end like the one that collects them.
-/

namespace OberonImports

variable {fs : FileSystem} {config : Config} {policy : ErrorPolicy} {analysis : Analysis}

/-- What an analysis makes of a registry and the failures beside it. -/
def Analysis.ofRegistry (registry : Registry) (policy : UnresolvedPolicy)
    (failures : List Failure) : Analysis where
  registry := registry
  graph := Graph.ofRegistry registry policy
  ranks := (Graph.ofRegistry registry policy).ranks
  cycles := (Graph.ofRegistry registry policy).cycles
  failures := failures

/-- What an analysis makes of the summary of its scan. -/
def Analysis.ofSummary (config : Config) (summary : Summary) : Except AnalysisError Analysis :=
  ((Registry.build summary.modules config.duplicates).mapError .duplicate).map
    (.ofRegistry · config.unresolved summary.failures)

theorem result_analyzeWith : (analyzeWith fs config policy).result =
    ((fs.scan config.testDir policy).result.mapError .scan).bind (Analysis.ofSummary config) := by
  simp only [analyzeWith, Logged.result_bind, Logged.result_mapError, Logged.result_log,
    Logged.result_ofExcept, Logged.result_pure]
  cases (fs.scan config.testDir policy).result with
  | error error => rfl
  | ok summary =>
      cases hbuild : Registry.build summary.modules config.duplicates <;>
        simp [Except.mapError, Except.bind, Except.map, hbuild, Analysis.ofSummary,
          Analysis.ofRegistry]

/-- An analysis comes to its end if the scan does and the registry of its modules can be built. -/
theorem analyzeWith_eq_ok : (analyzeWith fs config policy).result = .ok analysis ↔
    ∃ summary registry, (fs.scan config.testDir policy).result = .ok summary ∧
      Registry.build summary.modules config.duplicates = .ok registry ∧
      analysis = .ofRegistry registry config.unresolved summary.failures := by
  rw [result_analyzeWith]
  cases hscan : (fs.scan config.testDir policy).result with
  | error error => simp [Except.mapError, Except.bind]
  | ok summary =>
      cases hbuild : Registry.build summary.modules config.duplicates <;>
        simp [Except.mapError, Except.bind, Except.map, Analysis.ofSummary, hbuild, eq_comm]

/-- An analysis that stops at bad files is one that collects them and finds none. -/
theorem analyzeWith_abort_eq_ok : (analyzeWith fs config .abort).result = .ok analysis ↔
    (analyzeWith fs config .collect).result = .ok analysis ∧ analysis.failures = [] := by
  simp only [analyzeWith_eq_ok, FileSystem.result_scan_abort_eq_ok]
  constructor
  · rintro ⟨summary, registry, ⟨hscan, hnone⟩, hbuild, rfl⟩
    exact ⟨⟨summary, registry, hscan, hbuild, rfl⟩, hnone⟩
  · rintro ⟨⟨summary, registry, hscan, hbuild, rfl⟩, hnone⟩
    exact ⟨summary, registry, ⟨hscan, hnone⟩, hbuild, rfl⟩

/-- The failures of a scan do not matter for what is made of its modules. -/
theorem Analysis.ofSummary_without_failures (summary : Summary) :
    Analysis.ofSummary config { summary with failures := [] } =
      (Analysis.ofSummary config summary).map fun analysis => { analysis with failures := [] } := by
  unfold Analysis.ofSummary
  cases Registry.build summary.modules config.duplicates <;> rfl

/-- In a directory tree without links, bad files have no effect on an analysis but their failures.
Where an analysis collects failures, one that stops at bad files ends the same way when the
candidates that yield no module have been deleted and nothing else: with the same registry, graph,
ranks and cycles, or with the same error. The failures are those of the deleted files. -/
theorem analyzeWith_withoutFailed {location : Location}
    (hresolve : fs.resolve config.testDir = .ok location) (htree : fs.IsTree location) :
    (∀ place, FileSystem.entry? (fs.withoutFailed config.testDir) place =
      if place ∈ fs.failedLocations config.testDir then none else fs.entry? place) ∧
    (∀ place, place ∈ fs.failedLocations config.testDir ↔
      ∃ path bytes, ⟨path, place⟩ ∈ (fs.walk config.testDir).visits ∧
        fs.entry? place = some (.file bytes) ∧ Path.isModuleFile path = true ∧
        ∃ error, fs.extract path = .error error) ∧
    (analyzeWith (fs.withoutFailed config.testDir) config .abort).result =
      (analyzeWith fs config .collect).result.map (fun analysis =>
        { analysis with failures := [] }) ∧
    ∀ analysis, (analyzeWith fs config .collect).result = .ok analysis →
      analysis.failures = (fs.candidates config.testDir).filterMap fs.failureAt? := by
  refine ⟨(FileSystem.without_failed fs _).entry, ?_, ?_, ?_⟩
  · intro place
    rw [FileSystem.mem_failedLocations]
    apply exists_congr
    intro path
    simp only [FileSystem.mem_candidateVisits]
    constructor
    · intro ⟨⟨hvisit, hmodule, bytes, hfile⟩, herror⟩
      exact ⟨bytes, hvisit, hfile, hmodule, herror⟩
    · intro ⟨bytes, hvisit, hfile, hmodule, herror⟩
      exact ⟨⟨hvisit, hmodule, bytes, hfile⟩, herror⟩
  · rw [result_analyzeWith, result_analyzeWith,
      FileSystem.result_scan_withoutFailed htree hresolve]
    cases (fs.scan config.testDir .collect).result with
    | error error => rfl
    | ok summary => exact Analysis.ofSummary_without_failures summary
  · intro analysis hanalysis
    obtain ⟨summary, registry, hscan, -, rfl⟩ := analyzeWith_eq_ok.mp hanalysis
    rw [← (FileSystem.result_scan_collect_eq_ok.mp hscan).2]
    rfl

/-- A directory with a module that imports itself and, one directory below, an empty module
file. -/
def mixedTree : FileSystem where
  entries := [
    (["r"], .directory), (["r", "A.Mod"], .file (Text.Utf8.encode "Module A; Import A;")),
    (["r", "b"], .directory), (["r", "b", "C.mod"], .file [])]
  distinct := by decide
  cwd := []

theorem isTree_mixedTree : mixedTree.IsTree ["r"] := by
  have hplain : ∀ pair ∈ mixedTree.entries, ∀ target, pair.2 ≠ .link target := by simp [mixedTree]
  have hnames : ∀ pair ∈ mixedTree.entries, ∀ name ∈ pair.1, FileSystem.IsFileName name := by
    unfold FileSystem.IsFileName Path.IsEntryName
    decide
  exact FileSystem.isTree_of_entries rfl fun pair hpair => ⟨hplain pair hpair, hnames pair hpair⟩

theorem resolve_mixedTree : mixedTree.resolve "/r" = .ok ["r"] ∧
    mixedTree.resolve "/r/A.Mod" = .ok ["r", "A.Mod"] ∧ mixedTree.resolve "/r/b" = .ok ["r", "b"] ∧
    mixedTree.resolve "/r/b/C.mod" = .ok ["r", "b", "C.mod"] := by
  refine ⟨?_, ?_, ?_, ?_⟩ <;>
    refine FileSystem.resolve_eq_ok.mpr ⟨by decide, by decide, by decide, .stay rfl (.inl rfl) <|
      .down rfl (by decide) (by decide) rfl nofun ?_⟩
  · exact .here
  · exact .down rfl (by decide) (by decide) rfl nofun .here
  · exact .down rfl (by decide) (by decide) rfl nofun .here
  · exact .down rfl (by decide) (by decide) rfl nofun <|
      .down rfl (by decide) (by decide) rfl nofun .here

theorem walk_mixedTree : mixedTree.walk "/r" = ⟨[⟨"/r", ["r"]⟩, ⟨"/r/A.Mod", ["r", "A.Mod"]⟩,
    ⟨"/r/b", ["r", "b"]⟩, ⟨"/r/b/C.mod", ["r", "b", "C.mod"]⟩], none⟩ := by
  obtain ⟨hroot, -, hb, -⟩ := resolve_mixedTree
  have htop : mixedTree.children ["r"] = (["A.Mod", "b"] : List FileName) :=
    mergeSort_eq_of_perm (by decide) (by decide)
  have hbelow : mixedTree.children ["r", "b"] = [Path.ofText "C.mod"] :=
    mergeSort_eq_of_perm (by decide) (by decide)
  have hfile : mixedTree.held? ⟨"/r", ["r"]⟩ "A.Mod" = some ⟨"/r/A.Mod", ["r", "A.Mod"]⟩ := rfl
  have hdirectory : mixedTree.held? ⟨"/r", ["r"]⟩ "b" = some ⟨"/r/b", ["r", "b"]⟩ := rfl
  have hinner : mixedTree.held? ⟨"/r/b", ["r", "b"]⟩ "C.mod" =
      some ⟨"/r/b/C.mod", ["r", "b", "C.mod"]⟩ := rfl
  rw [FileSystem.walk_of_directory hroot rfl, htop,
    FileSystem.walkNames_of_not_directory hfile (by decide),
    FileSystem.walkNames_of_directory hdirectory rfl hb rfl, hbelow,
    FileSystem.walkNames_of_not_directory hinner (by decide)]
  simp only [FileSystem.walkNames]
  rfl

theorem extract_mixedTree :
    mixedTree.extract "/r/A.Mod" = .ok ⟨"A", ["A"], some "/r/A.Mod"⟩ ∧
    mixedTree.extract "/r/b/C.mod" = .error .nameNotFound := by
  obtain ⟨-, hgood, -, hbad⟩ := resolve_mixedTree
  have hmodule : Module.ofBytes? (Text.Utf8.encode "Module A; Import A;") =
      some ⟨"A", ["A"], none⟩ := by decide +kernel
  constructor
  · have hread : mixedTree.read "/r/A.Mod" = .ok (Text.Utf8.encode "Module A; Import A;") := by
      rw [FileSystem.read, hgood]
      rfl
    simp only [FileSystem.extract, hread, hmodule]
  · have hread : mixedTree.read "/r/b/C.mod" = .ok [] := by
      rw [FileSystem.read, hbad]
      rfl
    exact FileSystem.extract_of_read_nil hread

theorem analyzeWith_mixedTree : mixedTree.IsTree ["r"] ∧
    mixedTree.failedLocations "/r" = ([["r", "b", "C.mod"]] : List Location) ∧
    ∃ analysis, (analyzeWith mixedTree (.ofTestDir "/r") .collect).result = .ok analysis ∧
      analysis.registry.modules = [⟨"A", ["A"], some "/r/A.Mod"⟩] ∧
      analysis.failures = [⟨"/r/b/C.mod", .nameNotFound⟩] ∧
      (analyzeWith (mixedTree.withoutFailed "/r") (.ofTestDir "/r") .abort).result =
        .ok { analysis with failures := [] } := by
  obtain ⟨hgood, hbad⟩ := extract_mixedTree
  have hvisits : mixedTree.candidateVisits "/r" =
      [⟨"/r/A.Mod", ["r", "A.Mod"]⟩, ⟨"/r/b/C.mod", ["r", "b", "C.mod"]⟩] := by
    rw [FileSystem.candidateVisits, walk_mixedTree]
    rfl
  have hcandidates : mixedTree.candidates "/r" = (["/r/A.Mod", "/r/b/C.mod"] : List Path) := by
    rw [FileSystem.candidates_eq, hvisits]
    rfl
  have hstop : (mixedTree.walk "/r").stop = none := by rw [walk_mixedTree]
  have hyields : mixedTree.yields ["/r/A.Mod", "/r/b/C.mod"] =
      ⟨[⟨"A", ["A"], some "/r/A.Mod"⟩], [⟨"/r/b/C.mod", .nameNotFound⟩]⟩ := by
    simp [FileSystem.yields, FileSystem.failureAt?, hgood, hbad, Except.toOption]
  have hfailed : mixedTree.failedLocations "/r" = ([["r", "b", "C.mod"]] : List Location) := by
    simp [FileSystem.failedLocations, hvisits, FileSystem.failureAt?, hgood, hbad]
  have hcollect : (analyzeWith mixedTree (.ofTestDir "/r") .collect).result =
      Analysis.ofSummary (.ofTestDir "/r")
        ⟨[⟨"A", ["A"], some "/r/A.Mod"⟩], [⟨"/r/b/C.mod", .nameNotFound⟩]⟩ := by
    have hscan := FileSystem.result_scan_collect_eq_ok.mpr ⟨hstop, hcandidates ▸ hyields⟩
    rw [result_analyzeWith, Config.ofTestDir, hscan]
    rfl
  have hresolve : mixedTree.resolve (Config.ofTestDir "/r").testDir = .ok ["r"] :=
    resolve_mixedTree.1
  obtain ⟨-, -, hdeleted, -⟩ := analyzeWith_withoutFailed hresolve isTree_mixedTree
  refine ⟨isTree_mixedTree, hfailed, _, hcollect, rfl, rfl, ?_⟩
  exact hdeleted.trans (by rw [hcollect]; rfl)

end OberonImports
