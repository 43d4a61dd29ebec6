import OberonImports.Config.Load
import OberonImports.Proofs.FileSystem.Parent

/-!
# Where relative paths of a configuration start

The paths of a loaded configuration denote from the working directory what they denote as written
from the directory that holds the configuration file, and absolute paths stay as they are. The
exception is a file whose path is a mere name: its relative paths start at the directory that the
caller gave, which need not hold the file.
-/

namespace OberonImports.Config

open FileSystem

variable {fs : FileSystem} {named : Option Path} {directory path : Path}
  {config written : Config} {holder : Location}

/-- The places of a configuration. -/
def paths (config : Config) : List Path := [config.testDir, config.outputTxt, config.outputDot]

theorem paths_resolvePaths (config : Config) (base : Path) :
    (config.resolvePaths base).paths = config.paths.map base.join := rfl

theorem isFile_of_locate (hlocate : locate fs named directory = .ok path) :
    fs.isFile path = true := by
  cases named with
  | some named =>
      rw [locate] at hlocate
      split at hlocate
      next hfile =>
        cases hlocate
        exact hfile
      next => cases hlocate
  | none =>
      rw [locate, discover] at hlocate
      split at hlocate
      next found hfound =>
        cases hlocate
        exact List.find?_some hfound
      next => cases hlocate

/-- A configuration is loaded by locating its file, reading it, and resolving its paths. -/
theorem result_load_eq_ok : (load fs named directory).result = .ok config ↔
    ∃ path written, locate fs named directory = .ok path ∧ readFile fs path = .ok written ∧
      config = written.resolvePaths (base path directory) := by
  simp only [load, Logged.result_bind, Logged.result_ofExcept, Logged.result_log,
    Logged.result_pure]
  constructor
  · intro hload
    cases hlocate : locate fs named directory with
    | error cause =>
        rw [hlocate] at hload
        cases hload
    | ok path =>
        rw [hlocate] at hload
        cases hread : readFile fs path with
        | error cause =>
            simp [Except.bind, hread] at hload
        | ok written =>
            simp only [Except.bind, hread, Except.ok.injEq] at hload
            exact ⟨path, written, rfl, hread, hload.symm⟩
  · rintro ⟨path, written, hlocate, hread, rfl⟩
    simp only [Except.bind, hlocate, hread]

/-- The base of relative paths is the directory that holds the file, unless the path of the file is a
mere name and the given directory is another one. -/
theorem denotes_base (hheld : fs.HeldBy path holder)
    (hdirectory : path.parent? ≠ some [] ∨ fs.Denotes fs.cwd directory holder) :
    fs.Denotes fs.cwd (base path directory) holder := by
  obtain ⟨parent, hparent, ⟨rfl, -⟩ | ⟨hne, hdenotes⟩⟩ := hheld.exists_parent
  · rw [base, hparent]
    exact hdirectory.resolve_left (not_not.mpr hparent)
  · have hbase : base path directory = parent := by
      rw [base, hparent]
      split
      next hnone => cases hnone
      next hempty => exact absurd (Option.some.inj hempty) hne
      next hsome => exact (Option.some.inj hsome).symm
    rwa [hbase]

/-- If the path of a configuration file is more than a mere name, or the given directory is the one
that holds the file, every place in the loaded configuration denotes from the working directory what
it denotes as written from the directory that holds the file. The places in a file whose path is a
mere name start at the given directory. Absolute places are as they are written. -/
theorem load_places_denote (fs : FileSystem) (named : Option Path) (directory : Path)
    (config : Config) (hload : (load fs named directory).result = .ok config) :
    ∃ path written holder, locate fs named directory = .ok path ∧ readFile fs path = .ok written ∧
      fs.HeldBy path holder ∧ fs.entry? holder = some .directory ∧
      config = { written with
        testDir := config.testDir, outputTxt := config.outputTxt, outputDot := config.outputDot } ∧
      ∀ place ∈ written.paths.zip config.paths,
        (place.1.isAbsolute = true → place.2 = place.1) ∧
        (path.parent? ≠ some [] ∨ fs.Denotes fs.cwd directory holder →
          ∀ location, fs.Denotes fs.cwd place.2 location ↔ fs.Denotes holder place.1 location) ∧
        (path.parent? = some [] → ∀ start, fs.Denotes fs.cwd directory start →
          ∀ location, fs.Denotes fs.cwd place.2 location ↔ fs.Denotes start place.1 location) := by
  obtain ⟨path, written, hlocate, hread, rfl⟩ := result_load_eq_ok.mp hload
  obtain ⟨holder, hheld, hdirectory⟩ := exists_heldBy_of_isFile (isFile_of_locate hlocate)
  refine ⟨path, written, holder, hlocate, hread, hheld, hdirectory, rfl, fun place hplace => ?_⟩
  rw [paths_resolvePaths, ← List.map_id written.paths, List.map_map, List.zip_map', List.mem_map]
    at hplace
  obtain ⟨place, -, rfl⟩ := hplace
  refine ⟨join_of_isAbsolute, fun hbase location => denotes_join (denotes_base hheld hbase), ?_⟩
  intro hname start hstart location
  have hbase : base path directory = directory := by simp [base, hname]
  rw [Function.comp_apply, hbase]
  exact denotes_join hstart

/-- The working directory with a configuration file beside a directory. -/
def besideDirectory (text : List UInt8) : FileSystem where
  entries := [(["h"], .directory), (["h", "w"], .directory), (["h", "config.yaml"], .file text)]
  distinct := by
    simp only [List.map_cons, List.map_nil]
    decide
  cwd := ["h"]

section

variable (text : List UInt8)

theorem resolve_besideDirectory {names : List FileName}
    (hproper : path.contains 0 = false ∧ path ≠ [] ∧ path.length ≤ maxPathSize)
    (hrelative : path.isAbsolute = false) (hnames : pathNames path = names) :
    (besideDirectory text).resolve path =
      (besideDirectory text).followNames .find maxLinks ["h"] names := by
  rw [resolve_eq_followNames hproper.1 hproper.2.1 hproper.2.2, hrelative, hnames]
  rfl

theorem resolve_config_besideDirectory :
    (besideDirectory text).resolve "config.yaml" = .ok ["h", "config.yaml"] ∧
    (besideDirectory text).resolve "../h/config.yaml" = .ok ["h", "config.yaml"] := by
  have hfile : (besideDirectory text).followNames .find maxLinks ["h"] ["config.yaml"] =
      .ok ["h", "config.yaml"] := by
    rw [followNames_down rfl (by decide) (by decide) rfl (by simp), followNames_nil]
    rfl
  constructor
  · rw [resolve_besideDirectory text (by decide) rfl rfl]
    exact hfile
  · rw [resolve_besideDirectory text (by decide) rfl rfl]
    have hup : (besideDirectory text).followNames .find maxLinks ["h"]
        [Path.upward, "h", "config.yaml"] =
          (besideDirectory text).followNames .find maxLinks ["h"] ["config.yaml"] := by
      rw [followNames_up rfl, followNames_down rfl (by decide) (by decide) rfl (by simp)]
      rfl
    exact hup.trans hfile

theorem isFile_besideDirectory : (besideDirectory text).isFile "config.yaml" = true ∧
    (besideDirectory text).isFile "../h/config.yaml" = true ∧
    (besideDirectory text).isFile "w/config.yaml" = false := by
  have hmissing : (besideDirectory text).resolve "w/config.yaml" = .error .notFound := by
    rw [resolve_besideDirectory text (by decide) rfl rfl]
    have hdown : (besideDirectory text).followNames .find maxLinks ["h"] ["w", "config.yaml"] =
        (besideDirectory text).followNames .find maxLinks ["h", "w"] ["config.yaml"] := by
      rw [followNames_down rfl (by decide) (by decide) rfl (by simp)]
      rfl
    exact hdown.trans (followNames_step rfl (by decide))
  obtain ⟨hhere, hback⟩ := resolve_config_besideDirectory text
  rw [isFile, isFile, isFile, hhere, hback, hmissing]
  exact ⟨rfl, rfl, rfl⟩

end

def placedText : String := "app: \x7btest-dir: a\x7d"

def placedTree : FileSystem := besideDirectory (Text.Utf8.encode placedText)

theorem readFile_placedTree {path : Path}
    (hresolve : placedTree.resolve path = .ok ["h", "config.yaml"]) :
    readFile placedTree path = .ok (.ofTestDir "a") := by
  have hread : placedTree.read path = .ok (Text.Utf8.encode placedText) := by
    rw [FileSystem.read, hresolve]
    rfl
  have hoption : (Config.ofText placedText).toOption = some (.ofTestDir "a") := by decide +kernel
  cases hresult : Config.ofText placedText with
  | error error =>
      rw [hresult] at hoption
      cases hoption
  | ok config =>
      rw [hresult] at hoption
      obtain rfl : config = .ofTestDir "a" := Option.some.inj hoption
      simp only [readFile, FileSystem.readText, hread, Text.Utf8.decode?_encode, hresult,
        Except.mapError]

theorem heldBy_placedTree : placedTree.HeldBy "config.yaml" ["h"] ∧
    placedTree.HeldBy "../h/config.yaml" ["h"] := by
  have hproper : ¬ Path.IsIdle (Path.ofText "config.yaml") := by decide
  refine ⟨⟨[], "config.yaml", rfl, hproper, .here⟩, ⟨["..", "h"], "config.yaml", rfl, hproper, ?_⟩⟩
  exact .up (.down (by decide) nofun .here)

/-- The path of the file has more than one name, so the places written in the file start at its
directory, whatever directory is given. -/
theorem load_placedTree :
    (load placedTree (some "../h/config.yaml") "w").result =
      .ok ((Config.ofTestDir "a").resolvePaths "../h") ∧
    ∀ location, placedTree.Denotes ["h"] "../h/a" location ↔
      placedTree.Denotes ["h"] "a" location := by
  obtain ⟨-, hfile, -⟩ := isFile_besideDirectory (Text.Utf8.encode placedText)
  obtain ⟨-, hresolve⟩ := resolve_config_besideDirectory (Text.Utf8.encode placedText)
  have hlocated : locate placedTree (some "../h/config.yaml") "w" = .ok "../h/config.yaml" :=
    if_pos hfile
  have hbase : base "../h/config.yaml" "w" = "../h" := rfl
  have hload : (load placedTree (some "../h/config.yaml") "w").result =
      .ok ((Config.ofTestDir "a").resolvePaths "../h") :=
    result_load_eq_ok.mpr ⟨_, _, hlocated, readFile_placedTree hresolve, by rw [hbase]⟩
  obtain ⟨path, written, holder, hlocate, hread, hheld, -, -, hplaces⟩ :=
    load_places_denote placedTree (some "../h/config.yaml") "w" _ hload
  obtain rfl := Except.ok.inj (hlocated.symm.trans hlocate)
  obtain rfl := Except.ok.inj ((readFile_placedTree hresolve).symm.trans hread)
  obtain rfl := hheld.unique heldBy_placedTree.2
  obtain ⟨-, hdenotes, -⟩ := hplaces (Path.ofText "a", Path.ofText "../h/a") (by decide)
  exact ⟨hload, hdenotes (.inl (by decide))⟩

/-- The path of the file is a mere name, so the places written in the file start at the given
directory, which does not hold it. -/
theorem load_places_elsewhere :
    locate placedTree none "w" = .ok "config.yaml" ∧
    readFile placedTree "config.yaml" = .ok (.ofTestDir "a") ∧
    placedTree.HeldBy "config.yaml" placedTree.cwd ∧
    (load placedTree none "w").result = .ok ((Config.ofTestDir "a").resolvePaths "w") ∧
    ¬ ∀ location, placedTree.Denotes placedTree.cwd "w/a" location ↔
      placedTree.Denotes placedTree.cwd "a" location := by
  obtain ⟨hfile, -, hmissing⟩ := isFile_besideDirectory (Text.Utf8.encode placedText)
  obtain ⟨hresolve, -⟩ := resolve_config_besideDirectory (Text.Utf8.encode placedText)
  have hcandidates : candidates "w" = (["w/config.yaml", "config.yaml"] : List Path) := rfl
  have hlocated : locate placedTree none "w" = .ok "config.yaml" := by
    rw [locate, discover, hcandidates, List.find?_cons_of_neg, List.find?_cons_of_pos]
    · exact hfile
    · exact ne_true_of_eq_false hmissing
  have hbase : base "config.yaml" "w" = "w" := rfl
  refine ⟨hlocated, readFile_placedTree hresolve, heldBy_placedTree.1,
    result_load_eq_ok.mpr ⟨_, _, hlocated, readFile_placedTree hresolve, by rw [hbase]⟩, ?_⟩
  intro hsame
  have hwrong : placedTree.Denotes placedTree.cwd "w/a" ["h", "w", "a"] :=
    .down (by decide) nofun (.down (by decide) nofun .here)
  have hright : placedTree.Denotes placedTree.cwd "a" ["h", "a"] :=
    .down (by decide) nofun .here
  exact absurd (((hsame _).mp hwrong).unique hright) (by decide)

end OberonImports.Config
