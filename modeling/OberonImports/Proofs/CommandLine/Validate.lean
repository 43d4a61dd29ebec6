import OberonImports.CommandLine.Outcome
import OberonImports.Proofs.Analysis
import OberonImports.Proofs.Terminal.Findings
import OberonImports.Proofs.TidyNames

/-!
# What the validate command tells

The validate command tries every file, while an analysis may stop at the first bad one. Both follow
the same walk, and a bad file makes both fail, wherever it stands. So the command succeeds exactly
if such an analysis does, and what it prints then is what this analysis found.
-/

namespace OberonImports

variable {fs : FileSystem} {config : Config}

/-- Nothing but an early end of the walk, a bad file or a rejected repeat keeps an analysis that
stops at bad files from its end. -/
theorem exists_analyzeWith_abort :
    (∃ analysis, (analyzeWith fs config .abort).result = .ok analysis) ↔
      (fs.walk config.testDir).stop = none ∧
      (∀ path ∈ fs.candidates config.testDir, ∃ module, fs.extract path = .ok module) ∧
      (config.duplicates = .reject →
        ((fs.yields (fs.candidates config.testDir)).modules.map (·.name)).Nodup) := by
  simp only [analyzeWith_eq_ok, FileSystem.result_scan_abort_eq_ok,
    FileSystem.result_scan_collect_eq_ok]
  constructor
  · rintro ⟨_, _, registry, ⟨⟨hstop, rfl⟩, hnone⟩, hbuild, rfl⟩
    refine ⟨hstop, FileSystem.failures_yields_eq_nil.mp hnone, fun hreject => ?_⟩
    by_contra hrepeat
    obtain ⟨error, herror⟩ := Registry.exists_build_eq_error_iff.mpr ⟨hreject, hrepeat⟩
    rw [hbuild] at herror
    cases herror
  · rintro ⟨hstop, hgood, hnames⟩
    have hnone := FileSystem.failures_yields_eq_nil.mpr hgood
    cases hbuild : Registry.build (fs.yields (fs.candidates config.testDir)).modules
        config.duplicates with
    | ok registry => exact ⟨_, _, registry, ⟨⟨hstop, rfl⟩, hnone⟩, hbuild, rfl⟩
    | error error =>
        obtain ⟨hreject, hrepeat⟩ := Registry.exists_build_eq_error_iff.mp ⟨error, hbuild⟩
        exact absurd (hnames hreject) hrepeat

/-! ## Names in the findings -/

/-- Every name of a cycle is declared: an edge leaves it. -/
theorem Graph.declares_of_mem_cycle {registry : Registry} {policy : UnresolvedPolicy}
    {cycle : List String} {name : String} (hcycle : cycle ∈ (ofRegistry registry policy).cycles)
    (hname : name ∈ cycle) : registry.Declares name := by
  have hgraph := wellFormed_ofRegistry registry policy
  have hon := (exists_mem_cycles_iff_onCycle hgraph).mp ⟨cycle, hcycle, hname⟩
  obtain ⟨target, hedge, -⟩ := Relation.TransGen.head'_iff.mp hon
  obtain ⟨⟨module, hmodule, rfl, -⟩, -⟩ := edge_ofRegistry.mp hedge
  exact ⟨module, hmodule, rfl⟩

section

variable {policy : ErrorPolicy} {analysis : Analysis}

theorem not_mem_unresolvedImports
    (hanalysis : (analyzeWith fs config policy).result = .ok analysis) :
    ∀ name ∈ analysis.registry.unresolvedImports, ',' ∉ name.toList := by
  intro name hname
  obtain ⟨himport, -⟩ := Registry.mem_unresolvedImports.mp hname
  exact ((isTidy_of_analyzeWith hanalysis).of_imports himport).2

/-- No name of a cycle looks like a sign of cycles. -/
theorem isReadable_of_mem_cycles
    (hanalysis : (analyzeWith fs config policy).result = .ok analysis) :
    ∀ cycle ∈ analysis.cycles, Terminal.IsReadable cycle := by
  have htidy := isTidy_of_analyzeWith hanalysis
  obtain ⟨summary, registry, -, -, rfl⟩ := analyzeWith_eq_ok.mp hanalysis
  intro cycle hcycle
  refine ⟨fun hnil => ?_, fun name hname => ?_⟩
  · exact Graph.cycle_ne_nil (Graph.wellFormed_ofRegistry _ _) (hnil ▸ hcycle)
  · obtain ⟨module, hmodule, rfl⟩ := Graph.declares_of_mem_cycle hcycle hname
    have hsign : ∀ c, Source.isNameChar c = false → c ∉ module.name.toList := by
      intro c hc hmem
      rw [(htidy module hmodule).declared c hmem] at hc
      cases hc
    have hother : Source.isNameChar '↻' = false ∧ Source.isNameChar '↔' = false := by
      decide +kernel
    exact ⟨hsign _ hother.1, hsign _ hother.2⟩

end

namespace CommandLine.Outcome

variable {ε α : Type} {computation : Logged ε α} {chain : ε → List String} {next : α → Outcome}

@[simp]
theorem status_after (events : List Event) (outcome : Outcome) :
    (outcome.after events).status = outcome.status := rfl

@[simp]
theorem output_after (events : List Event) (outcome : Outcome) :
    (outcome.after events).output = outcome.output := rfl

theorem ofLogged_of_ok {value : α} (hvalue : computation.result = .ok value) :
    ofLogged fs computation chain next = (next value).after computation.events := by
  rw [ofLogged, hvalue]

theorem ofLogged_of_error {error : ε} (herror : computation.result = .error error) :
    ofLogged fs computation chain next =
      (failure fs "" (chain error)).after computation.events := by
  rw [ofLogged, herror]

end CommandLine.Outcome

namespace CommandLine.Setup

variable {setup : Setup}

/-- The command fails if the analysis does, and if the analysis has found a bad file. -/
theorem status_validate : setup.validate.status =
    match (analyzeWith setup.fs setup.config .collect).result with
    | .error _ => 1
    | .ok analysis => if analysis.failures = [] then 0 else 1 := by
  unfold validate
  cases hanalysis : (analyzeWith setup.fs setup.config .collect).result with
  | error error =>
      rw [Outcome.ofLogged_of_error hanalysis]
      rfl
  | ok analysis =>
      rw [Outcome.ofLogged_of_ok hanalysis]
      cases hfailures : analysis.failures <;> simp [hfailures, Outcome.success, Outcome.failure]

/-- What the command prints if the analysis has found no bad file. -/
theorem output_validate
    (hanalysis : (analyzeWith setup.fs setup.config .collect).result = .ok analysis)
    (hnone : analysis.failures = []) : setup.validate.output = Text.unlines
      (Terminal.info setup.colours ("Scanned " ++ setup.config.testDir.display)
        ++ Terminal.info setup.colours (count analysis.registry.size "module(s)"
            ++ ", unresolved imports: " ++ setup.config.unresolved.word)
        ++ Terminal.unresolved setup.colours analysis.registry.unresolvedImports
        ++ Terminal.cycles setup.colours analysis.cycles
        ++ Terminal.success setup.colours "All module files parsed.") := by
  rw [validate, Outcome.ofLogged_of_ok hanalysis]
  simp [hnone, Outcome.success, Terminal.failures]

/-- The numbers of a scan are told in one line. -/
theorem not_mem_summary (size : Nat) (policy : UnresolvedPolicy) :
    '\n' ∉ (count size "module(s)" ++ ", unresolved imports: " ++ policy.word).toList := by
  have hdigits : '\n' ∉ (toString size).toList := Terminal.not_mem_digits (by decide) size
  simp only [count, String.toList_append, List.mem_append, hdigits, false_or]
  cases policy <;> decide

/-- Whatever the configuration says of bad files, the validate command has status 0 exactly if the
analysis that stops at bad files comes to its end, and prints the unresolved imports and the cycles
that this analysis has found: both are read back from what is printed of them. They are read back
from the whole output too, unless an undeclared import holds a line feed and so may look like the
heading of cycles. The status is 1 if the walk ends early, if some file yields no module and if a
repeat is rejected, and in no other case. -/
theorem validate_agrees_with_abort (setup : Setup) :
    (setup.validate.status = 0 ↔
      ∃ analysis, (analyzeWith setup.fs setup.config .abort).result = .ok analysis) ∧
    (∀ analysis, (analyzeWith setup.fs setup.config .abort).result = .ok analysis →
      setup.validate.output = Text.unlines
        (Terminal.info setup.colours ("Scanned " ++ setup.config.testDir.display)
          ++ Terminal.info setup.colours (count analysis.registry.size "module(s)"
              ++ ", unresolved imports: " ++ setup.config.unresolved.word)
          ++ Terminal.unresolved setup.colours analysis.registry.unresolvedImports
          ++ Terminal.cycles setup.colours analysis.cycles
          ++ Terminal.success setup.colours "All module files parsed.") ∧
      Terminal.readUnresolved? setup.colours (Text.unlines (Terminal.unresolved setup.colours
        analysis.registry.unresolvedImports)).toList = some analysis.registry.unresolvedImports ∧
      Terminal.readCycles? setup.colours (Text.unlines (Terminal.cycles setup.colours
        analysis.cycles)).toList = some analysis.cycles ∧
      ((∀ name ∈ analysis.registry.unresolvedImports, '\n' ∉ name.toList) →
        Terminal.readFindings? setup.colours setup.config.testDir setup.validate.output =
          some (analysis.registry.unresolvedImports, analysis.cycles))) ∧
    (setup.validate.status = 1 ↔
      (∃ error, (setup.fs.walk setup.config.testDir).stop = some error) ∨
      (∃ path ∈ setup.fs.candidates setup.config.testDir,
        ∃ error, setup.fs.extract path = .error error) ∨
      setup.config.duplicates = .reject ∧ ¬ ((setup.fs.yields
        (setup.fs.candidates setup.config.testDir)).modules.map (·.name)).Nodup) ∧
    (setup.validate.status = 0 ∨ setup.validate.status = 1) ∧
    ∀ policy, ({ setup with config := { setup.config with onError := policy } } : Setup).validate =
      setup.validate := by
  have hzero : setup.validate.status = 0 ↔
      ∃ analysis, (analyzeWith setup.fs setup.config .abort).result = .ok analysis := by
    simp only [status_validate, analyzeWith_abort_eq_ok]
    cases (analyzeWith setup.fs setup.config .collect).result <;> simp
  have hstatus : setup.validate.status = 0 ∨ setup.validate.status = 1 := by
    rw [status_validate]
    cases (analyzeWith setup.fs setup.config .collect).result with
    | error error => exact .inr rfl
    | ok analysis => exact ite_eq_or_eq _ 0 1
  refine ⟨hzero, fun analysis habort => ?_, ?_, hstatus, fun _ => rfl⟩
  · obtain ⟨hcollect, hnone⟩ := analyzeWith_abort_eq_ok.mp habort
    have houtput := output_validate hcollect hnone
    have hcommas := not_mem_unresolvedImports habort
    have hcycles := isReadable_of_mem_cycles habort
    refine ⟨houtput, Terminal.readUnresolved?_unresolved _ hcommas,
      Terminal.readCycles?_cycles _ hcycles, fun hfeeds => ?_⟩
    rw [houtput]
    exact Terminal.readFindings?_unlines (not_mem_summary _ _) hcommas hfeeds hcycles
  · have hone : setup.validate.status = 1 ↔ ¬ setup.validate.status = 0 := by omega
    have hbad : ∀ path, (∃ error, setup.fs.extract path = .error error) ↔
        ¬ ∃ module, setup.fs.extract path = .ok module := by
      intro path
      cases setup.fs.extract path <;> simp
    have hstop : (∃ error, (setup.fs.walk setup.config.testDir).stop = some error) ↔
        ¬ (setup.fs.walk setup.config.testDir).stop = none := Option.ne_none_iff_exists'.symm
    rw [hone, hzero, exists_analyzeWith_abort, hstop]
    simp only [hbad, not_and_or, not_forall, exists_prop]

end CommandLine.Setup

end OberonImports
