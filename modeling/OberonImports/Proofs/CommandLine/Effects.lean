import OberonImports.Proofs.CommandLine.Validate
import OberonImports.Proofs.FileSystem.Write

/-!
# What commands leave behind

All commands but `run` leave every file as it was. A run writes the report and then the drawing,
and stops where something fails. Before a file is opened everything is as it was; a file that takes
only a part of its content holds this part, and a report that has been written stays. What a run
writes is what the commands `list` and `graph` print.
-/

namespace OberonImports

open CommandLine (Command Options Outcome Request Setup request? workingDirectory)

/-! ## Writing the outputs -/

namespace Analysis

variable {fs : FileSystem} {medium : Medium} {config : Config} {analysis : Analysis}

/-- The bytes of the report file. -/
def reportBytes (analysis : Analysis) : List UInt8 := Text.Utf8.encode analysis.report

/-- The bytes of the drawing file. -/
def dotBytes (analysis : Analysis) (config : Config) : List UInt8 :=
  Text.Utf8.encode (analysis.dot config.dotOptions)

/-- What is left once the report has been written, or has not been written. -/
def afterReport (analysis : Analysis) (config : Config) (fs : FileSystem) (medium : Medium) :
    Written :=
  fs.write medium config.outputTxt analysis.reportBytes

/-- What is left once the drawing has been written behind the report, or has not been written. -/
def afterDot (analysis : Analysis) (config : Config) (fs : FileSystem) (medium : Medium) :
    Written :=
  (analysis.afterReport config fs medium).fs.write medium config.outputDot
    (analysis.dotBytes config)

/-- Nothing is written behind a report that fails. -/
theorem writeOutputs_of_failed (hfailed : (analysis.afterReport config fs medium).error? ≠ none) :
    (analysis.writeOutputs config fs medium).fs = (analysis.afterReport config fs medium).fs ∧
    (analysis.writeOutputs config fs medium).error? ≠ none := by
  obtain ⟨error, herror⟩ := Option.ne_none_iff_exists'.mp hfailed
  have hwrite : (fs.writeText medium config.outputTxt analysis.report).error? = some error := herror
  simp only [writeOutputs, hwrite]
  exact ⟨rfl, Option.some_ne_none _⟩

/-- The drawing is written behind a report that does not fail. -/
theorem writeOutputs_of_done (hdone : (analysis.afterReport config fs medium).error? = none) :
    (analysis.writeOutputs config fs medium).fs = (analysis.afterDot config fs medium).fs ∧
    ((analysis.writeOutputs config fs medium).error? = none ↔
      (analysis.afterDot config fs medium).error? = none) := by
  have hreport : (fs.writeText medium config.outputTxt analysis.report).error? = none := hdone
  simp only [writeOutputs, hreport]
  cases hdot : (analysis.afterDot config fs medium).error? with
  | none =>
      have hwrite : ((fs.writeText medium config.outputTxt analysis.report).fs.writeText medium
          config.outputDot (analysis.dot config.dotOptions)).error? = none := hdot
      simp only [writeDot, hwrite]
      exact ⟨rfl, by simp⟩
  | some error =>
      have hwrite : ((fs.writeText medium config.outputTxt analysis.report).fs.writeText medium
          config.outputDot (analysis.dot config.dotOptions)).error? = some error := hdot
      simp only [writeDot, hwrite]
      exact ⟨rfl, by simp⟩

/-- Nothing has failed exactly if both files have been written. -/
theorem error?_writeOutputs : (analysis.writeOutputs config fs medium).error? = none ↔
    (analysis.afterReport config fs medium).error? = none ∧
    (analysis.afterDot config fs medium).error? = none := by
  by_cases hreport : (analysis.afterReport config fs medium).error? = none
  · rw [(writeOutputs_of_done hreport).2, and_iff_right hreport]
  · exact iff_of_false (writeOutputs_of_failed hreport).2 (mt And.left hreport)

/-- Only what the two paths lead to changes. -/
theorem changed_of_writeOutputs {location : Location} (hcwd : fs.CwdExists)
    (hchanged : (analysis.writeOutputs config fs medium).fs.entry? location ≠ fs.entry? location) :
    fs.resolveFor .write config.outputTxt = .ok location ∨
      fs.resolveFor .write config.outputDot = .ok location := by
  by_contra hnot
  obtain ⟨htxt, hdot⟩ := not_or.mp hnot
  have hreport : (analysis.afterReport config fs medium).fs.entry? location = fs.entry? location :=
    FileSystem.entry?_write hcwd htxt
  apply hchanged
  by_cases hdone : (analysis.afterReport config fs medium).error? = none
  · rw [(writeOutputs_of_done hdone).1, ← hreport]
    apply FileSystem.entry?_write (FileSystem.cwdExists_write hcwd)
    rwa [ne_eq, FileSystem.resolveFor_write_write hcwd]
  · rw [(writeOutputs_of_failed hdone).1, hreport]

/-- A report that has been written is read back, unless its file is opened again for the drawing. -/
theorem read_report (hcwd : fs.CwdExists)
    (hdone : (analysis.afterReport config fs medium).error? = none)
    (hkept : fs.resolveFor .write config.outputTxt ≠ fs.resolveFor .write config.outputDot ∨
      (analysis.afterReport config fs medium).fs.Unopened medium config.outputDot
        (analysis.dotBytes config)) :
    (analysis.writeOutputs config fs medium).fs.read config.outputTxt =
      .ok analysis.reportBytes := by
  rw [(writeOutputs_of_done hdone).1]
  rcases hkept with hother | hunopened
  · exact FileSystem.read_write_write hcwd hdone hother.symm
  · rw [afterDot, (FileSystem.write_of_unopened hunopened).1]
    exact FileSystem.read_write hcwd hdone

/-- A drawing that has been written is read back. -/
theorem read_dot (hcwd : fs.CwdExists)
    (hdone : (analysis.writeOutputs config fs medium).error? = none) :
    (analysis.writeOutputs config fs medium).fs.read config.outputDot =
      .ok (analysis.dotBytes config) := by
  obtain ⟨hreport, hdot⟩ := error?_writeOutputs.mp hdone
  rw [(writeOutputs_of_done hreport).1]
  exact FileSystem.read_write (FileSystem.cwdExists_write hcwd) hdot

end Analysis

/-! ## Commands -/

namespace CommandLine

variable {fs : FileSystem} {medium : Medium} {config : Config} {analysis : Analysis} {setup : Setup}
  {command : Command} {options : Options} {request : Request} {arguments : List (List UInt8)}
  {colours : Bool}

namespace Setup

/-- An analysis that fails ends the command that asks for it. -/
theorem analyzed_of_error {error : AnalysisError} {next : Analysis → Outcome}
    (herror : (analyze setup.fs setup.config).result = .error error) :
    (setup.analyzed next).fs = setup.fs ∧ (setup.analyzed next).status ≠ 0 := by
  rw [analyzed, Outcome.ofLogged_of_error herror]
  exact ⟨rfl, one_ne_zero⟩

theorem analyzed_of_ok {next : Analysis → Outcome}
    (hanalysis : (analyze setup.fs setup.config).result = .ok analysis) :
    setup.analyzed next = (next analysis).after (analyze setup.fs setup.config).events := by
  rw [analyzed, Outcome.ofLogged_of_ok hanalysis]

/-- A command that only prints leaves the file system as it was. -/
theorem fs_analyzed {next : Analysis → Outcome}
    (hnext : ∀ analysis, (next analysis).fs = setup.fs) :
    (setup.analyzed next).fs = setup.fs := by
  cases hanalysis : (analyze setup.fs setup.config).result with
  | error error => exact (analyzed_of_error hanalysis).1
  | ok analysis =>
      rw [analyzed_of_ok hanalysis]
      exact hnext analysis

theorem fs_validate : setup.validate.fs = setup.fs := by
  unfold validate
  cases hanalysis : (analyzeWith setup.fs setup.config .collect).result with
  | error error =>
      rw [Outcome.ofLogged_of_error hanalysis]
      rfl
  | ok analysis =>
      rw [Outcome.ofLogged_of_ok hanalysis]
      cases hfailures : analysis.failures <;> rfl

theorem fs_perform (hcommand : command ≠ .run) : (setup.perform command).fs = setup.fs := by
  cases command with
  | run => exact absurd rfl hcommand
  | list => exact fs_analyzed fun _ => rfl
  | graph => exact fs_analyzed fun _ => rfl
  | ranks json => exact fs_analyzed fun _ => rfl
  | validate => exact fs_validate

/-- An analysis that fails ends every command but `validate`, which makes one of its own. -/
theorem perform_of_error (setup : Setup) {error : AnalysisError}
    (herror : (analyze setup.fs setup.config).result = .error error)
    (hcommand : command ≠ .validate) :
    (setup.perform command).fs = setup.fs ∧ (setup.perform command).status ≠ 0 := by
  cases command with
  | validate => exact absurd rfl hcommand
  | run | list | graph | ranks json => exact analyzed_of_error herror

theorem run_of_ok (setup : Setup)
    (hanalysis : (analyze setup.fs setup.config).result = .ok analysis) :
    setup.run.fs = (analysis.writeOutputs setup.config setup.fs setup.medium).fs ∧
    (setup.run.status = 0 ↔
      (analysis.writeOutputs setup.config setup.fs setup.medium).error? = none) := by
  rw [run, analyzed_of_ok hanalysis]
  cases hfailed : (analysis.writeOutputs setup.config setup.fs setup.medium).error? with
  | none => simp [hfailed, Outcome.after, Outcome.success]
  | some error => simp [hfailed, Outcome.after, Outcome.failure]

theorem output_list (setup : Setup)
    (hanalysis : (analyze setup.fs setup.config).result = .ok analysis) :
    setup.list.status = 0 ∧ setup.list.output = analysis.report := by
  rw [list, analyzed_of_ok hanalysis]
  exact ⟨rfl, rfl⟩

theorem output_graph (setup : Setup)
    (hanalysis : (analyze setup.fs setup.config).result = .ok analysis) :
    setup.graph.status = 0 ∧ setup.graph.output = analysis.dot setup.config.dotOptions := by
  rw [graph, analyzed_of_ok hanalysis]
  exact ⟨rfl, rfl⟩

end Setup

/-- A request is carried out, but for the events that the log does not show. -/
theorem run_of_request (fs : FileSystem) (medium : Medium) (colours : Bool)
    (hrequest : request? arguments = some request) :
    ∃ events, run fs medium colours arguments =
      { request.perform fs medium colours with events := events } := by
  rw [run, hrequest]
  exact ⟨_, rfl⟩

/-- A command is carried out with the configuration that has been loaded. -/
theorem run_of_load (medium : Medium) (colours : Bool)
    (hrequest : request? arguments = some (.command options command))
    (hload : (Config.load fs options.config (workingDirectory fs)).result = .ok config) :
    ∃ events, run fs medium colours arguments =
      { Setup.perform ⟨fs, medium, config, colours⟩ command with events := events } := by
  obtain ⟨events, hrun⟩ := run_of_request fs medium colours hrequest
  rw [Request.perform, Outcome.ofLogged_of_ok hload] at hrun
  exact ⟨events, hrun⟩

theorem run_of_load_error {error : ConfigError}
    (hrequest : request? arguments = some (.command options command))
    (hload : (Config.load fs options.config (workingDirectory fs)).result = .error error) :
    (run fs medium colours arguments).fs = fs ∧ (run fs medium colours arguments).status ≠ 0 := by
  obtain ⟨events, hrun⟩ := run_of_request fs medium colours hrequest
  rw [Request.perform, Outcome.ofLogged_of_error hload] at hrun
  rw [hrun]
  exact ⟨rfl, one_ne_zero⟩

/-- Nothing but the command `run` changes the file system. -/
theorem fs_run (hrequest : request? arguments = some request)
    (hother : ∀ options, request ≠ .command options .run) :
    (run fs medium colours arguments).fs = fs := by
  cases request with
  | help | version =>
      obtain ⟨events, hrun⟩ := run_of_request fs medium colours hrequest
      rw [hrun]
      rfl
  | command options command =>
      cases hload : (Config.load fs options.config (workingDirectory fs)).result with
      | error error => exact (run_of_load_error hrequest hload).1
      | ok config =>
          obtain ⟨events, hrun⟩ := run_of_load medium colours hrequest hload
          rw [hrun]
          apply Setup.fs_perform
          rintro rfl
          exact hother options rfl

/-- The command `list` prints the report and nothing else. -/
theorem output_run_list (hrequest : request? arguments = some (.command options .list))
    (hload : (Config.load fs options.config (workingDirectory fs)).result = .ok config)
    (hanalysis : (analyze fs config).result = .ok analysis) :
    (run fs medium colours arguments).status = 0 ∧
      (run fs medium colours arguments).output = analysis.report := by
  obtain ⟨events, hrun⟩ := run_of_load medium colours hrequest hload
  rw [hrun]
  exact Setup.output_list ⟨fs, medium, config, colours⟩ hanalysis

/-- The command `graph` prints the drawing and nothing else. -/
theorem output_run_graph (hrequest : request? arguments = some (.command options .graph))
    (hload : (Config.load fs options.config (workingDirectory fs)).result = .ok config)
    (hanalysis : (analyze fs config).result = .ok analysis) :
    (run fs medium colours arguments).status = 0 ∧
    (run fs medium colours arguments).output = analysis.dot config.dotOptions := by
  obtain ⟨events, hrun⟩ := run_of_load medium colours hrequest hload
  rw [hrun]
  exact Setup.output_graph ⟨fs, medium, config, colours⟩ hanalysis

/-- A run whose analysis is made leaves behind what writing the outputs leaves behind. -/
theorem run_of_analysis (medium : Medium) (colours : Bool)
    (hrequest : request? arguments = some (.command options .run))
    (hload : (Config.load fs options.config (workingDirectory fs)).result = .ok config)
    (hanalysis : (analyze fs config).result = .ok analysis) :
    (run fs medium colours arguments).fs = (analysis.writeOutputs config fs medium).fs ∧
    ((run fs medium colours arguments).status = 0 ↔
      (analysis.writeOutputs config fs medium).error? = none) := by
  obtain ⟨events, hrun⟩ := run_of_load medium colours hrequest hload
  rw [hrun]
  exact Setup.run_of_ok ⟨fs, medium, config, colours⟩ hanalysis

/-- A run changes nothing but what its two output paths lead to. -/
theorem changed_of_run {location : Location} (hcwd : fs.CwdExists)
    (hrequest : request? arguments = some (.command options command))
    (hload : (Config.load fs options.config (workingDirectory fs)).result = .ok config)
    (hchanged : (run fs medium colours arguments).fs.entry? location ≠ fs.entry? location) :
    fs.resolveFor .write config.outputTxt = .ok location ∨
      fs.resolveFor .write config.outputDot = .ok location := by
  by_cases hcommand : command = .run
  · subst hcommand
    cases hanalysis : (analyze fs config).result with
    | error error =>
        obtain ⟨events, hrun⟩ := run_of_load medium colours hrequest hload
        have hnot : Command.run ≠ .validate := nofun
        have hkept := (Setup.perform_of_error ⟨fs, medium, config, colours⟩ hanalysis hnot).1
        rw [hrun, hkept] at hchanged
        exact absurd rfl hchanged
    | ok analysis =>
        rw [(run_of_analysis medium colours hrequest hload hanalysis).1] at hchanged
        exact Analysis.changed_of_writeOutputs hcwd hchanged
  · rw [fs_run hrequest] at hchanged
    · exact absurd rfl hchanged
    · rintro _ heq
      cases heq
      exact hcommand rfl

/-- Whatever the medium does, every command but `run` leaves the file system as it was. A run
changes nothing but what its two output paths lead to. It changes nothing if no configuration can be
loaded, if the analysis fails or if the file of the report cannot be opened. If writing the report
breaks off, its file holds what it has taken, and no other file changes. Nothing else makes the
report fail. If only the drawing cannot be written, the report can be read in full, provided that its
file has not been opened again for the drawing. All these failures have a status other than 0. If
nothing has failed and the paths lead to different places, the two files hold what the commands
`list` and `graph` print, with whatever log and colours these are asked for: the report and the
drawing, and nothing else, whatever failures the analysis has collected. -/
theorem run_effects (fs : FileSystem) (medium : Medium) (colours : Bool) (hcwd : fs.CwdExists)
    (hrequest : request? arguments = some request) :
    let outcome := run fs medium colours arguments
    ((∀ options, request ≠ .command options .run) → outcome.fs = fs) ∧
    ∀ options command, request = .command options command →
      let loaded := (Config.load fs options.config (workingDirectory fs)).result
      (∀ error, loaded = .error error → outcome.fs = fs ∧ outcome.status ≠ 0) ∧
      ∀ config, loaded = .ok config →
        (∀ location, outcome.fs.entry? location ≠ fs.entry? location →
          fs.resolveFor .write config.outputTxt = .ok location ∨
          fs.resolveFor .write config.outputDot = .ok location) ∧
        (command ≠ .validate → ∀ error, (analyze fs config).result = .error error →
          outcome.fs = fs ∧ outcome.status ≠ 0) ∧
        ∀ analysis, (analyze fs config).result = .ok analysis →
          (command = .list → outcome.status = 0 ∧ outcome.output = analysis.report) ∧
          (command = .graph →
            outcome.status = 0 ∧ outcome.output = analysis.dot config.dotOptions) ∧
          (command = .run →
            let report := fs.write medium config.outputTxt analysis.reportBytes
            let drawing := report.fs.write medium config.outputDot (analysis.dotBytes config)
            (outcome.status = 0 ↔ report.error? = none ∧ drawing.error? = none) ∧
            (report.error? ≠ none → fs.Unopened medium config.outputTxt analysis.reportBytes ∨
              ∃ taken, fs.BreaksOff medium config.outputTxt analysis.reportBytes taken) ∧
            (fs.Unopened medium config.outputTxt analysis.reportBytes →
              outcome.fs = fs ∧ outcome.status ≠ 0) ∧
            (∀ taken, fs.BreaksOff medium config.outputTxt analysis.reportBytes taken →
              outcome.fs.read config.outputTxt = .ok (analysis.reportBytes.take taken) ∧
              (∀ location, outcome.fs.entry? location ≠ fs.entry? location →
                fs.resolveFor .write config.outputTxt = .ok location) ∧
              outcome.status ≠ 0) ∧
            (report.error? = none → drawing.error? ≠ none →
              (fs.resolveFor .write config.outputTxt ≠ fs.resolveFor .write config.outputDot ∨
                report.fs.Unopened medium config.outputDot (analysis.dotBytes config) →
                  outcome.fs.read config.outputTxt = .ok analysis.reportBytes) ∧
              outcome.status ≠ 0) ∧
            (outcome.status = 0 →
              fs.resolveFor .write config.outputTxt ≠ fs.resolveFor .write config.outputDot →
              ∀ others otherOptions otherMedium otherColours,
                otherOptions.config = options.config →
                (request? others = some (.command otherOptions .list) →
                  outcome.fs.read config.outputTxt =
                    .ok (Text.Utf8.encode (run fs otherMedium otherColours others).output)) ∧
                (request? others = some (.command otherOptions .graph) →
                  outcome.fs.read config.outputDot =
                    .ok (Text.Utf8.encode (run fs otherMedium otherColours others).output)))) := by
  intro outcome
  refine ⟨fs_run hrequest, ?_⟩
  rintro options command rfl loaded
  refine ⟨fun error hload => run_of_load_error hrequest hload, fun config hload => ⟨?_, ?_, ?_⟩⟩
  · exact fun location hchanged => changed_of_run hcwd hrequest hload hchanged
  · intro hcommand error herror
    obtain ⟨events, hrun⟩ := run_of_load medium colours hrequest hload
    have houtcome : outcome = _ := hrun
    rw [houtcome]
    exact Setup.perform_of_error ⟨fs, medium, config, colours⟩ herror hcommand
  · intro analysis hanalysis
    refine ⟨?_, ?_, ?_⟩
    · rintro rfl
      exact output_run_list hrequest hload hanalysis
    · rintro rfl
      exact output_run_graph hrequest hload hanalysis
    · rintro rfl report drawing
      obtain ⟨hfs, hstatus⟩ := run_of_analysis medium colours hrequest hload hanalysis
      have hzero : outcome.status = 0 ↔ report.error? = none ∧ drawing.error? = none :=
        hstatus.trans Analysis.error?_writeOutputs
      rw [show outcome.fs = (analysis.writeOutputs config fs medium).fs from hfs]
      refine ⟨hzero, FileSystem.write_failed hcwd, ?_, ?_, ?_, ?_⟩
      · intro hunopened
        obtain ⟨hkept, hfailed⟩ := FileSystem.write_of_unopened hunopened
        rw [(Analysis.writeOutputs_of_failed hfailed).1]
        exact ⟨hkept, fun hdone => hfailed (hzero.mp hdone).1⟩
      · intro taken hbreaks
        obtain ⟨hread, hfailed⟩ := FileSystem.write_of_breaksOff hcwd hbreaks
        rw [(Analysis.writeOutputs_of_failed hfailed).1]
        refine ⟨hread, fun location hchanged => ?_, fun hdone => hfailed (hzero.mp hdone).1⟩
        exact not_not.mp (mt (FileSystem.entry?_write hcwd) hchanged)
      · intro hdone hfailed
        exact ⟨Analysis.read_report hcwd hdone, fun hnone => hfailed (hzero.mp hnone).2⟩
      · intro hnone hother others otherOptions otherMedium otherColours hsame
        have hload' : (Config.load fs otherOptions.config (workingDirectory fs)).result =
            .ok config := by rwa [hsame]
        constructor
        · intro hlist
          rw [(output_run_list hlist hload' hanalysis).2]
          exact Analysis.read_report hcwd (hzero.mp hnone).1 (.inl hother)
        · intro hgraph
          rw [(output_run_graph hgraph hload' hanalysis).2]
          exact Analysis.read_dot hcwd (hstatus.mp hnone)

/-- A directory with a configuration file, an empty file, a link to it where the report goes and,
one directory below, two module files, the second of them empty. -/
def configuredTree (text declaration : List UInt8) : FileSystem where
  entries := [(["config.yaml"], .file text), (["notes"], .file []), (["output-txt"], .link "notes"),
    (["s"], .directory), (["s", "A.Mod"], .file declaration), (["s", "B.Mod"], .file [])]
  distinct := by
    simp only [List.map_cons, List.map_nil]
    decide
  cwd := []

section

variable (text declaration : List UInt8)

theorem resolve_configuredTree :
    (configuredTree text declaration).resolve "/config.yaml" = .ok ["config.yaml"] ∧
    (configuredTree text declaration).resolve "/s" = .ok ["s"] ∧
    (configuredTree text declaration).resolve "/s/A.Mod" = .ok ["s", "A.Mod"] ∧
    (configuredTree text declaration).resolve "/s/B.Mod" = .ok ["s", "B.Mod"] := by
  refine ⟨?_, ?_, ?_, ?_⟩ <;>
    refine FileSystem.resolve_eq_ok.mpr ⟨by decide, by decide, by decide, .stay rfl (.inl rfl) <|
      .down rfl (by decide) (by decide) rfl nofun ?_⟩
  · exact .here
  · exact .here
  · exact .down rfl (by decide) (by decide) rfl nofun .here
  · exact .down rfl (by decide) (by decide) rfl nofun .here

/-- The report goes where the link leads. -/
theorem resolveFor_write_configuredTree :
    (configuredTree text declaration).resolveFor .write "/output-txt" = .ok ["notes"] ∧
    (configuredTree text declaration).resolveFor .write "/modules_graph.dot" =
      .ok ["modules_graph.dot"] := by
  constructor
  · have hlink : (configuredTree text declaration).followNames .write FileSystem.maxLinks []
        ["output-txt"] = (configuredTree text declaration).followNames .write 39 [] ["notes"] :=
      FileSystem.followNames_write_step rfl (by decide) (by decide) (by simp)
    have hfile : (configuredTree text declaration).followNames .write 39 [] ["notes"] =
        .ok ["notes"] := by
      rw [FileSystem.followNames_write_step rfl (by decide) (by decide) (by simp)]
      exact FileSystem.followNames_nil
    refine FileSystem.resolveFor_eq_ok.mpr ⟨by decide, by decide, by decide, ?_⟩
    exact (FileSystem.followNames_stay rfl (.inl rfl)).trans (hlink.trans hfile)
  · refine FileSystem.resolveFor_eq_ok.mpr ⟨by decide, by decide, by decide, ?_⟩
    exact (FileSystem.followNames_stay rfl (.inl rfl)).trans <|
      FileSystem.followNames_write_step rfl (by decide) (by decide) (by simp)

theorem walk_configuredTree : (configuredTree text declaration).walk "/s" =
    ⟨[⟨"/s", ["s"]⟩, ⟨"/s/A.Mod", ["s", "A.Mod"]⟩, ⟨"/s/B.Mod", ["s", "B.Mod"]⟩], none⟩ := by
  obtain ⟨-, hroot, -, -⟩ := resolve_configuredTree text declaration
  have hchildren : (configuredTree text declaration).children ["s"] =
      (["A.Mod", "B.Mod"] : List FileName) :=
    mergeSort_eq_of_perm (.refl _) (by decide)
  have hgood : (configuredTree text declaration).held? ⟨"/s", ["s"]⟩ "A.Mod" =
      some ⟨"/s/A.Mod", ["s", "A.Mod"]⟩ := rfl
  have hbad : (configuredTree text declaration).held? ⟨"/s", ["s"]⟩ "B.Mod" =
      some ⟨"/s/B.Mod", ["s", "B.Mod"]⟩ := rfl
  rw [FileSystem.walk_of_directory hroot rfl, hchildren,
    FileSystem.walkNames_of_not_directory hgood nofun,
    FileSystem.walkNames_of_not_directory hbad nofun, FileSystem.walkNames]
  rfl

theorem cwdExists_configuredTree : (configuredTree text declaration).CwdExists := by
  intro location hlocation
  rw [List.prefix_nil.mp hlocation]
  rfl

theorem extract_configuredTree {module : Module}
    (hmodule : Module.ofBytes? declaration = some module) :
    (configuredTree text declaration).extract "/s/A.Mod" =
      .ok { module with source := some "/s/A.Mod" } ∧
    (configuredTree text declaration).extract "/s/B.Mod" = .error .nameNotFound := by
  obtain ⟨-, -, hgood, hbad⟩ := resolve_configuredTree text declaration
  constructor
  · have hread : (configuredTree text declaration).read "/s/A.Mod" = .ok declaration := by
      rw [FileSystem.read, hgood]
      rfl
    rw [FileSystem.extract_of_read hread, hmodule]
  · have hread : (configuredTree text declaration).read "/s/B.Mod" = .ok [] := by
      rw [FileSystem.read, hbad]
      rfl
    exact FileSystem.extract_of_read_nil hread

end

/-- A configuration that collects failures. -/
def collectingText : String := "app: \x7btest-dir: s, on-error: collect\x7d"

def declarationText : String := "MODULE A; IMPORT B;"

def collectingTree : FileSystem :=
  configuredTree (Text.Utf8.encode collectingText) (Text.Utf8.encode declarationText)

def collectingConfig : Config :=
  ({ Config.ofTestDir "s" with onError := .collect } : Config).resolvePaths "/"

theorem load_collectingTree :
    (Config.load collectingTree none (workingDirectory collectingTree)).result =
      .ok collectingConfig := by
  have hresolve : collectingTree.resolve "/config.yaml" = .ok ["config.yaml"] :=
    (resolve_configuredTree _ _).1
  have hlocate : Config.locate collectingTree none "/" = .ok "/config.yaml" := by
    have hisFile : collectingTree.isFile "/config.yaml" = true := by
      rw [FileSystem.isFile, hresolve]
      rfl
    have hcandidates : Config.candidates "/" = (["/config.yaml"] : List Path) := rfl
    simp [Config.locate, Config.discover, hcandidates, hisFile]
  have htext : collectingTree.readText "/config.yaml" = .ok collectingText := by
    have hread : collectingTree.read "/config.yaml" = .ok (Text.Utf8.encode collectingText) := by
      rw [FileSystem.read, hresolve]
      rfl
    simp only [FileSystem.readText, hread, Text.Utf8.decode?_encode]
  have hconfig : Config.ofText collectingText =
      .ok { Config.ofTestDir "s" with onError := .collect } := by
    have hoption : (Config.ofText collectingText).toOption =
        some { Config.ofTestDir "s" with onError := .collect } := by decide +kernel
    cases hresult : Config.ofText collectingText with
    | error error =>
        rw [hresult] at hoption
        cases hoption
    | ok config =>
        rw [hresult] at hoption
        exact congrArg Except.ok (Option.some.inj hoption)
  have hreadFile : Config.readFile collectingTree "/config.yaml" =
      .ok { Config.ofTestDir "s" with onError := .collect } := by
    simp only [Config.readFile, htext, hconfig, Except.mapError]
  have hbase : Config.base "/config.yaml" "/" = "/" := rfl
  have hdirectory : workingDirectory collectingTree = "/" := rfl
  rw [hdirectory]
  simp only [Config.load, Logged.result_bind, Logged.result_ofExcept, Logged.result_log,
    Logged.result_pure, hlocate, hreadFile, Except.bind, hbase]
  rfl

theorem outputs_collectingConfig : collectingConfig.outputTxt = "/output-txt" ∧
    collectingConfig.outputDot = "/modules_graph.dot" :=
  ⟨rfl, rfl⟩

theorem analyze_collectingTree : ∃ analysis,
    (analyze collectingTree collectingConfig).result = .ok analysis ∧
    analysis.registry.modules = [⟨"A", ["B"], some "/s/A.Mod"⟩] ∧
    analysis.failures = [⟨"/s/B.Mod", .nameNotFound⟩] := by
  have hmodule : Module.ofBytes? (Text.Utf8.encode declarationText) = some ⟨"A", ["B"], none⟩ := by
    decide +kernel
  obtain ⟨hgood, hbad⟩ := extract_configuredTree (Text.Utf8.encode collectingText) _ hmodule
  have hwalk := walk_configuredTree (Text.Utf8.encode collectingText)
    (Text.Utf8.encode declarationText)
  have htestDir : collectingConfig.testDir = "/s" := rfl
  have hcandidates :
      collectingTree.candidates "/s" = (["/s/A.Mod", "/s/B.Mod"] : List Path) := by
    rw [FileSystem.candidates, collectingTree, hwalk]
    rfl
  have hyields : collectingTree.yields ["/s/A.Mod", "/s/B.Mod"] =
      ⟨[⟨"A", ["B"], some "/s/A.Mod"⟩], [⟨"/s/B.Mod", .nameNotFound⟩]⟩ := by
    simp [collectingTree, FileSystem.yields, FileSystem.failureAt?, hgood, hbad, Except.toOption]
  have hscan := FileSystem.result_scan_collect_eq_ok.mpr
    ⟨congrArg FileSystem.Walk.stop hwalk, hcandidates ▸ hyields⟩
  rw [← htestDir] at hscan
  exact ⟨_, analyzeWith_eq_ok.mpr ⟨_, _, hscan, rfl, rfl⟩, rfl, rfl⟩

/-- The report that the tree is asked for. -/
def collectingReport : String := "A:\n\tB\n" ++ separator ++ "\n"

theorem report_collectingTree
    (hanalysis : (analyze collectingTree collectingConfig).result = .ok analysis) :
    analysis.report = collectingReport := by
  obtain ⟨found, hfound, hmodules, -⟩ := analyze_collectingTree
  obtain rfl := Except.ok.inj (hfound.symm.trans hanalysis)
  rw [Analysis.report, Registry.report, hmodules]
  rfl

open FileSystem in
/-- A medium that takes everything lets both files be written. -/
theorem writes_collectingTree (analysis : Analysis) :
    (analysis.afterReport collectingConfig collectingTree .faultless).error? = none ∧
    (analysis.afterDot collectingConfig collectingTree .faultless).error? = none := by
  obtain ⟨htxtPath, hdotPath⟩ := outputs_collectingConfig
  obtain ⟨htxt, hdot⟩ := resolveFor_write_configuredTree (Text.Utf8.encode collectingText)
    (Text.Utf8.encode declarationText)
  have hcwd : collectingTree.CwdExists := cwdExists_configuredTree _ _
  rw [← collectingTree, ← htxtPath] at htxt
  rw [← collectingTree, ← hdotPath] at hdot
  have hnext : (analysis.afterReport collectingConfig collectingTree .faultless).fs.resolveFor
      .write collectingConfig.outputDot = .ok ["modules_graph.dot"] := by
    rwa [Analysis.afterReport, resolveFor_write_write hcwd]
  have hfree : FileSystem.entry?
      (analysis.afterReport collectingConfig collectingTree .faultless).fs ["modules_graph.dot"] ≠
        some .directory := by
    rw [Analysis.afterReport, entry?_write hcwd (by rw [htxt]; decide)]
    nofun
  constructor
  · rw [Analysis.afterReport, write_of_faultless htxt nofun rfl]
  · rw [Analysis.afterDot, write_of_faultless hnext hfree rfl]

/-- Two bytes of the report fit on a medium that has no room for more. -/
theorem breaksOff_collectingTree
    (hanalysis : (analyze collectingTree collectingConfig).result = .ok analysis) :
    ∃ hroom : 2 < analysis.reportBytes.length, collectingTree.BreaksOff (.ofCapacity 2)
      collectingConfig.outputTxt analysis.reportBytes ⟨2, hroom⟩ := by
  have hroom : 2 < analysis.reportBytes.length := by
    rw [Analysis.reportBytes, report_collectingTree hanalysis]
    decide
  refine ⟨hroom, ["notes"], .system 28, ?_, nofun, dif_pos hroom⟩
  rw [outputs_collectingConfig.1]
  exact (resolveFor_write_configuredTree _ _).1

theorem run_collectingTree : collectingTree.CwdExists ∧
    request? [] = some (.command .none .run) ∧
    (run collectingTree .faultless false []).status = 0 ∧
    (run collectingTree .faultless true ["-v", "list"]).output = collectingReport ∧
    (run collectingTree .faultless false []).fs.read "/output-txt" =
      .ok (Text.Utf8.encode (run collectingTree .faultless true ["-v", "list"]).output) ∧
    (run collectingTree .faultless false []).fs.read "/modules_graph.dot" =
      .ok (Text.Utf8.encode (run collectingTree .faultless true ["graph"]).output) ∧
    (run collectingTree (.ofCapacity 2) false []).fs.read "/output-txt" =
      .ok (Text.Utf8.encode "A:") ∧
    (run collectingTree (.ofCapacity 2) false []).status ≠ 0 := by
  have hcwd : collectingTree.CwdExists := cwdExists_configuredTree _ _
  have hrequest : request? [] = some (.command .none .run) := rfl
  have hlist : request? ["-v", "list"] = some (.command ⟨none, true⟩ .list) := rfl
  have hgraph : request? ["graph"] = some (.command ⟨none, false⟩ .graph) := rfl
  obtain ⟨htxtPath, hdotPath⟩ := outputs_collectingConfig
  obtain ⟨htxt, hdot⟩ := resolveFor_write_configuredTree (Text.Utf8.encode collectingText)
    (Text.Utf8.encode declarationText)
  obtain ⟨analysis, hanalysis, -⟩ := analyze_collectingTree
  have hreport := report_collectingTree hanalysis
  have hload := load_collectingTree
  have heffects : ∀ medium, _ := fun medium =>
    (run_effects collectingTree medium false hcwd hrequest).2 _ _ rfl
  obtain ⟨hzero, -, -, -, -, hsuccess⟩ :=
    (((heffects .faultless).2 _ hload).2.2 _ hanalysis).2.2 rfl
  obtain ⟨-, -, -, hbreaks, -⟩ := (((heffects (.ofCapacity 2)).2 _ hload).2.2 _ hanalysis).2.2 rfl
  have hdone := hzero.mpr (writes_collectingTree analysis)
  have hother : collectingTree.resolveFor .write collectingConfig.outputTxt ≠
      collectingTree.resolveFor .write collectingConfig.outputDot := by
    rw [htxtPath, hdotPath, collectingTree, htxt, hdot]
    decide
  obtain ⟨hroom, hoff⟩ := breaksOff_collectingTree hanalysis
  obtain ⟨hread, -, hfailed⟩ := hbreaks ⟨2, hroom⟩ hoff
  refine ⟨hcwd, hrequest, hdone, ?_, ?_, ?_, ?_, hfailed⟩
  · rw [(output_run_list hlist hload hanalysis).2, hreport]
  · rw [← htxtPath]
    exact (hsuccess hdone hother _ ⟨none, true⟩ _ true rfl).1 hlist
  · rw [← hdotPath]
    exact (hsuccess hdone hother _ ⟨none, false⟩ _ true rfl).2 hgraph
  · have hbytes : analysis.reportBytes.take 2 = Text.Utf8.encode "A:" := by
      rw [Analysis.reportBytes, hreport]
      rfl
    rw [← htxtPath, hread, hbytes]

/-- What a run writes is put where the output paths lead to: the link to `notes` is followed. If
writing the report breaks off, `notes` is not as it was. -/
theorem run_changes_linked_file :
    (Config.load collectingTree none (workingDirectory collectingTree)).result =
      .ok collectingConfig ∧
    collectingConfig.outputTxt = "/output-txt" ∧
    collectingConfig.outputDot = "/modules_graph.dot" ∧
    collectingTree.entry? ["notes"] = some (.file []) ∧
    (run collectingTree .faultless false []).status = 0 ∧
    (run collectingTree .faultless false []).fs.entry? ["notes"] =
      some (.file (Text.Utf8.encode collectingReport)) ∧
    (run collectingTree (.ofCapacity 2) false []).status ≠ 0 ∧
    (run collectingTree (.ofCapacity 2) false []).fs.entry? ["notes"] =
      some (.file (Text.Utf8.encode "A:")) := by
  obtain ⟨htxtPath, hdotPath⟩ := outputs_collectingConfig
  obtain ⟨analysis, hanalysis, -⟩ := analyze_collectingTree
  have hrequest : request? [] = some (.command .none .run) := rfl
  have hload := load_collectingTree
  have hcwd : collectingTree.CwdExists := cwdExists_configuredTree _ _
  have hreport : analysis.reportBytes = Text.Utf8.encode collectingReport := by
    rw [Analysis.reportBytes, report_collectingTree hanalysis]
  have htxt : collectingTree.resolveFor .write collectingConfig.outputTxt = .ok ["notes"] := by
    rw [htxtPath]
    exact (resolveFor_write_configuredTree _ _).1
  have hdot : collectingTree.resolveFor .write collectingConfig.outputDot ≠ .ok ["notes"] := by
    rw [hdotPath, collectingTree, (resolveFor_write_configuredTree _ _).2]
    decide
  refine ⟨hload, htxtPath, hdotPath, rfl, ?_, ?_, ?_, ?_⟩
  · rw [(run_of_analysis .faultless false hrequest hload hanalysis).2, Analysis.error?_writeOutputs]
    exact writes_collectingTree analysis
  · have hdone := (writes_collectingTree analysis).1
    let written := collectingTree.write .faultless collectingConfig.outputTxt analysis.reportBytes
    have hwritten : written = ⟨collectingTree.set ["notes"] (.file analysis.reportBytes), none⟩ :=
      FileSystem.write_of_faultless htxt nofun rfl
    have hother : written.fs.resolveFor .write collectingConfig.outputDot ≠ .ok ["notes"] := by
      rwa [ne_eq, FileSystem.resolveFor_write_write hcwd]
    have hkept :
        (analysis.afterDot collectingConfig collectingTree .faultless).fs.entry? ["notes"] =
          written.fs.entry? ["notes"] :=
      FileSystem.entry?_write (FileSystem.cwdExists_write hcwd) hother
    rw [(run_of_analysis .faultless false hrequest hload hanalysis).1,
      (Analysis.writeOutputs_of_done hdone).1, hkept, hwritten, ← hreport]
    rfl
  · obtain ⟨hroom, hoff⟩ := breaksOff_collectingTree hanalysis
    rw [ne_eq, (run_of_analysis (.ofCapacity 2) false hrequest hload hanalysis).2]
    exact (Analysis.writeOutputs_of_failed (FileSystem.write_of_breaksOff hcwd hoff).2).2
  · obtain ⟨hroom, hoff⟩ := breaksOff_collectingTree hanalysis
    have hbytes : analysis.reportBytes.take 2 = Text.Utf8.encode "A:" := by
      rw [hreport]
      rfl
    rw [(run_of_analysis (.ofCapacity 2) false hrequest hload hanalysis).1,
      (Analysis.writeOutputs_of_failed (FileSystem.write_of_breaksOff hcwd hoff).2).1,
      Analysis.afterReport, FileSystem.write_of_brokenOff htxt nofun (dif_pos hroom), ← hbytes]
    rfl

end CommandLine

end OberonImports
