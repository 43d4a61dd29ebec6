import Mathlib.Data.Set.Card
import OberonImports.Proofs.Path
import OberonImports.Proofs.Scan.ErrorPolicy
import OberonImports.Proofs.Text.Encoding

/-!
# What a scan accounts for

A candidate is a regular file that is reached from the root, links followed, and whose file name is
UTF-8 and ends in `.Mod` or `.mod`. A scan that collects failures lists every candidate once, as the
source of a module or as a failure, and keeps the order of paths name by name. It depends on what
stands where, not on the order in which directories list their entries. A file whose name ends alike
but is not UTF-8 is passed over.
-/

namespace OberonImports

variable {fs other : FileSystem} {root path : Path} {name : FileName} {paths : List Path}
  {names others place : List FileName} {visit : FileSystem.Visit} {summary : Summary}

namespace Path

/-- A path comes before another below a root if the names on its way do, each compared by its
bytes. -/
def Precedes (root first second : Path) : Prop :=
  ∃ names others, (∀ name ∈ names ++ others, IsEntryName name) ∧
    first = below root names ∧ second = below root others ∧ names < others

/-- The names on the way are determined by a path, so no path comes before itself. -/
theorem Precedes.ne (hroot : root ≠ []) {first second : Path}
    (hprecedes : Precedes root first second) : first ≠ second := by
  obtain ⟨names, others, hnames, rfl, rfl, hlt⟩ := hprecedes
  intro heq
  obtain rfl := below_injective hroot
    (fun name hname => hnames name (List.mem_append_left _ hname))
    (fun name hname => hnames name (List.mem_append_right _ hname)) heq
  exact List.lt_irrefl _ hlt

/-- A file name ends like that of a module file. -/
def EndsLikeModule (name : FileName) : Prop := ofText ".Mod" <:+ name ∨ ofText ".mod" <:+ name

theorem isModuleName_iff : isModuleName name = true ↔ EndsLikeModule name ∧ IsUtf8 name := by
  have hends : ∀ text, EndsLikeModule (ofText text) ↔
      ".Mod".toList <:+ text.toList ∨ ".mod".toList <:+ text.toList := fun text =>
    or_congr (Text.Utf8.encode_suffix_iff (by decide)) (Text.Utf8.encode_suffix_iff (by decide))
  unfold isModuleName
  cases htext : text? name with
  | none => simp [isUtf8_iff, htext]
  | some text =>
      obtain rfl := text?_eq_some.mp htext
      simp [isUtf8_iff, hends]

theorem isModuleFile_iff : isModuleFile path = true ↔
    ∃ name, lastName? path = some name ∧ EndsLikeModule name ∧ IsUtf8 name := by
  unfold isModuleFile
  cases lastName? path with
  | none => simp
  | some name => simp [isModuleName_iff]

end Path

namespace FileSystem

/-- All names in locations are names that entries of directories can have. -/
def ProperlyNamed (fs : FileSystem) : Prop :=
  ∀ entry ∈ fs.entries, ∀ name ∈ entry.1, Path.IsEntryName name

/-- A path leads through directory entries, links followed, from a root to a regular file, and has
this file name. -/
def ReachesFile (fs : FileSystem) (root path : Path) (name : FileName) : Prop :=
  ∃ place location bytes, fs.reachedFrom? root place = some ⟨path, location⟩ ∧
    fs.entry? location = some (.file bytes) ∧ path.lastName? = some name

/-- A path leads to a regular file whose name is UTF-8 and ends like that of a module file. -/
def IsCandidate (fs : FileSystem) (root path : Path) : Prop :=
  ∃ name, fs.ReachesFile root path name ∧ Path.EndsLikeModule name ∧ Path.IsUtf8 name

theorem mem_files {walk : Walk} : path ∈ walk.files fs ↔
    ∃ location bytes, ⟨path, location⟩ ∈ walk.visits ∧ fs.entry? location = some (.file bytes) := by
  simp only [Walk.files, List.mem_map, List.mem_filter]
  constructor
  · rintro ⟨⟨path, location⟩, ⟨hvisit, hfile⟩, rfl⟩
    split at hfile
    next bytes hentry => exact ⟨location, bytes, hvisit, hentry⟩
    next => cases hfile
  · rintro ⟨location, bytes, hvisit, hentry⟩
    exact ⟨⟨path, location⟩, ⟨hvisit, by simp [hentry]⟩, rfl⟩

theorem mem_candidates (hstop : (fs.walk root).stop = none) :
    path ∈ fs.candidates root ↔ fs.IsCandidate root path := by
  simp only [candidates, List.mem_filter, mem_files, mem_visits_walk hstop, Path.isModuleFile_iff]
  constructor
  · rintro ⟨⟨location, bytes, ⟨place, hreached⟩, hentry⟩, name, hname, hmodule⟩
    exact ⟨name, ⟨place, location, bytes, hreached, hentry, hname⟩, hmodule⟩
  · rintro ⟨name, ⟨place, location, bytes, hreached, hentry, hname⟩, hmodule⟩
    exact ⟨⟨location, bytes, ⟨place, hreached⟩, hentry⟩, name, hname, hmodule⟩

/-- The names on the way to what is reached are names of entries. -/
theorem ProperlyNamed.isEntryName (hproper : fs.ProperlyNamed) {directory : Visit}
    (hreached : fs.reached? directory place = some visit) :
    ∀ name ∈ place, Path.IsEntryName name := by
  induction place generalizing directory with
  | nil => simp
  | cons name names ih =>
      obtain ⟨next, hheld, hrest⟩ := held_of_reached hreached
      obtain ⟨entry, hentry⟩ := entry_of_held hheld
      rw [entry?_concat] at hentry
      obtain ⟨pair, hpair, hlocation⟩ := List.mem_map.mp (Lookup.mem_keys_of_lookup hentry)
      refine List.forall_mem_cons.mpr ⟨hproper pair hpair name ?_, ih hrest⟩
      rw [hlocation]
      simp

/-- A walk from the empty path ends at once. -/
theorem root_ne_empty (hstop : (fs.walk root).stop = none) : root ≠ [] := by
  rintro rfl
  cases hstop

/-- Visits come in the order of their paths. -/
theorem pairwise_candidates (hproper : fs.ProperlyNamed) (hstop : (fs.walk root).stop = none) :
    (fs.candidates root).Pairwise (Path.Precedes root) := by
  refine List.Pairwise.filter _ (List.pairwise_map.mpr ?_)
  refine ((pairwise_visits_walk hstop).filter _).imp ?_
  rintro first second ⟨place, later, hfirst, hsecond, hlt⟩
  obtain ⟨location, -, hfirst⟩ := exists_reached_of_reachedFrom hfirst
  obtain ⟨location', -, hsecond⟩ := exists_reached_of_reachedFrom hsecond
  refine ⟨place, later, ?_, path_of_reached hfirst, path_of_reached hsecond, hlt⟩
  intro name hname
  rcases List.mem_append.mp hname with hname | hname
  · exact hproper.isEntryName hfirst name hname
  · exact hproper.isEntryName hsecond name hname

theorem source_of_extract {module : Module} (hmodule : fs.extract path = .ok module) :
    module.source = some path := by
  unfold extract at hmodule
  split at hmodule
  next => cases hmodule
  next =>
    split at hmodule
    next => cases hmodule
    next =>
      cases hmodule
      rfl

/-- What is found for some elements of a list, seen through a view that depends on the element. -/
theorem map_filterMap_eq {α β γ : Type} {find : α → Option β} {view : β → γ} {image : α → γ}
    (hview : ∀ a b, find a = some b → view b = image a) (list : List α) :
    (list.filterMap find).map view = (list.filter fun a => (find a).isSome).map image := by
  induction list with
  | nil => rfl
  | cons a list ih =>
      cases hfind : find a with
      | none => simp [hfind, ih]
      | some b => simp [hfind, ih, hview a b hfind]

/-- The files that yield a module are the sources of the modules. -/
theorem sources_yields (paths : List Path) : (fs.yields paths).modules.map (·.source) =
    (paths.filter fun path => (fs.extract path).toOption.isSome).map some := by
  refine map_filterMap_eq (fun path module hmodule => ?_) paths
  cases hextract : fs.extract path with
  | error error => simp [hextract, Except.toOption] at hmodule
  | ok found =>
      rw [hextract] at hmodule
      cases hmodule
      exact source_of_extract hextract

/-- The other files are those of the failures. -/
theorem paths_yields (paths : List Path) : (fs.yields paths).failures.map (·.path) =
    paths.filter fun path => !(fs.extract path).toOption.isSome := by
  have hother : ∀ path, (fs.failureAt? path).isSome = !(fs.extract path).toOption.isSome := by
    intro path
    unfold failureAt?
    cases fs.extract path <;> rfl
  calc (fs.yields paths).failures.map (·.path)
      = (paths.filter fun path => (fs.failureAt? path).isSome).map id :=
        map_filterMap_eq (fun _ _ hfailure => (failureAt?_eq_some.mp hfailure).1) paths
    _ = paths.filter fun path => !(fs.extract path).toOption.isSome := by
        rw [List.map_id, funext hother]

theorem nodup_candidates (hproper : fs.ProperlyNamed) (hstop : (fs.walk root).stop = none) :
    (fs.candidates root).Nodup :=
  (pairwise_candidates hproper hstop).imp fun hprecedes => hprecedes.ne (root_ne_empty hstop)

/-- Every file is tried once. -/
theorem filesSeen_yields (paths : List Path) : (fs.yields paths).filesSeen = paths.length := by
  have hsources := congrArg List.length (fs.sources_yields paths)
  have hpaths := congrArg List.length (fs.paths_yields paths)
  have hsplit := (List.filter_append_perm (fun path => (fs.extract path).toOption.isSome)
    paths).length_eq
  simp only [List.length_map] at hsources hpaths
  rw [Summary.filesSeen, hsources, hpaths, ← List.length_append, hsplit]

/-! ## The order of the entries -/

theorem extract_of_perm (hperm : other.entries.Perm fs.entries) (hcwd : other.cwd = fs.cwd)
    (path : Path) : other.extract path = fs.extract path := by
  simp only [extract, read_of_perm hperm hcwd]

theorem candidates_of_perm (hperm : other.entries.Perm fs.entries) (hcwd : other.cwd = fs.cwd)
    (root : Path) : other.candidates root = fs.candidates root := by
  simp only [candidates, Walk.files, walk_of_perm hperm hcwd, entry?_of_perm hperm]

theorem scanFiles_of_perm (hperm : other.entries.Perm fs.entries) (hcwd : other.cwd = fs.cwd)
    (policy : ErrorPolicy) (summary : Summary) (paths : List Path) :
    other.scanFiles policy summary paths = fs.scanFiles policy summary paths := by
  induction paths generalizing summary with
  | nil => rfl
  | cons path paths ih => simp only [scanFiles, extract_of_perm hperm hcwd, ih]

theorem scan_of_perm (hperm : other.entries.Perm fs.entries) (hcwd : other.cwd = fs.cwd)
    (root : Path) (policy : ErrorPolicy) : other.scan root policy = fs.scan root policy := by
  simp only [scan, scanFiles_of_perm hperm hcwd, candidates_of_perm hperm hcwd,
    walk_of_perm hperm hcwd]

/-- A scan that collects failures and comes to its end accounts for every candidate once: as the
source of a module, or as a failure. Sources and failures come in the order of their paths, name by
name and each name by its bytes. The entries of the file system may come in any order. -/
theorem scan_accounts_for_candidates (hproper : fs.ProperlyNamed)
    (hscan : (fs.scan root .collect).result = .ok summary) :
    ∃ sources : List Path,
      summary.modules.map (·.source) = sources.map some ∧
      (sources ++ summary.failures.map (·.path)).Nodup ∧
      (∀ path, path ∈ sources ∨ path ∈ summary.failures.map (·.path) ↔
        fs.IsCandidate root path) ∧
      summary.filesSeen = {path | fs.IsCandidate root path}.ncard ∧
      sources.Pairwise (Path.Precedes root) ∧
      (summary.failures.map (·.path)).Pairwise (Path.Precedes root) ∧
      ∀ other : FileSystem, other.entries.Perm fs.entries → other.cwd = fs.cwd →
        other.scan root .collect = fs.scan root .collect := by
  obtain ⟨hstop, rfl⟩ := result_scan_collect_eq_ok.mp hscan
  have hascending := pairwise_candidates hproper hstop
  have hnodup := nodup_candidates hproper hstop
  have hsplit := List.filter_append_perm (fun path => (fs.extract path).toOption.isSome)
    (fs.candidates root)
  have hset : {path | fs.IsCandidate root path} = ↑(fs.candidates root).toFinset := by
    ext path
    simp [mem_candidates hstop]
  rw [paths_yields]
  refine ⟨_, sources_yields _, hsplit.nodup_iff.mpr hnodup, fun path => ?_, ?_,
    hascending.filter _, hascending.filter _,
    fun other hperm hcwd => scan_of_perm hperm hcwd root .collect⟩
  · rw [← List.mem_append, hsplit.mem_iff, mem_candidates hstop]
  · rw [filesSeen_yields, hset, Set.ncard_coe_finset, List.toFinset_card_of_nodup hnodup]

/-- A directory with a file of its name, a link to the directory with the name of a module file and
a link to the file. -/
def linkedTree : FileSystem where
  entries := [
    (["a.Mod"], .file []), (["a"], .directory),
    (["a", "x.Mod"], .file (Text.Utf8.encode "Module X;")), (["b.Mod"], .link "a"),
    (["c.mod"], .link "a.Mod")]
  distinct := by decide
  cwd := []

theorem resolve_linkedTree : linkedTree.resolve "/" = .ok [] ∧
    linkedTree.resolve "/a" = .ok ["a"] ∧ linkedTree.resolve "/a/x.Mod" = .ok ["a", "x.Mod"] ∧
    linkedTree.resolve "/a.Mod" = .ok ["a.Mod"] ∧ linkedTree.resolve "/b.Mod" = .ok ["a"] ∧
    linkedTree.resolve "/b.Mod/x.Mod" = .ok ["a", "x.Mod"] ∧
    linkedTree.resolve "/c.mod" = .ok ["a.Mod"] := by
  refine ⟨?_, ?_, ?_, ?_, ?_, ?_, ?_⟩ <;>
    refine resolve_eq_ok.mpr ⟨by decide, by decide, by decide, .stay rfl (.inl rfl) ?_⟩
  · exact .stay rfl (.inl rfl) .here
  · exact .down rfl (by decide) (by decide) rfl nofun .here
  · exact .down rfl (by decide) (by decide) rfl nofun <|
      .down rfl (by decide) (by decide) rfl nofun .here
  · exact .down rfl (by decide) (by decide) rfl nofun .here
  · exact .link rfl (by decide) (by decide) rfl <|
      .down rfl (by decide) (by decide) rfl nofun .here
  · exact .link rfl (by decide) (by decide) rfl <|
      .down rfl (by decide) (by decide) rfl nofun <|
        .down rfl (by decide) (by decide) rfl nofun .here
  · exact .link rfl (by decide) (by decide) rfl <|
      .down rfl (by decide) (by decide) rfl nofun .here

theorem walk_linkedTree : linkedTree.walk "/" = ⟨[⟨"/", []⟩, ⟨"/a", ["a"]⟩,
    ⟨"/a/x.Mod", ["a", "x.Mod"]⟩, ⟨"/a.Mod", ["a.Mod"]⟩, ⟨"/b.Mod", ["a"]⟩,
    ⟨"/b.Mod/x.Mod", ["a", "x.Mod"]⟩, ⟨"/c.mod", ["a.Mod"]⟩], none⟩ := by
  obtain ⟨hroot, ha, -, -, hb, -, hc⟩ := resolve_linkedTree
  have htop : linkedTree.children [] = (["a", "a.Mod", "b.Mod", "c.mod"] : List FileName) :=
    mergeSort_eq_of_perm (by decide) (by decide)
  have hbelow : linkedTree.children ["a"] = [Path.ofText "x.Mod"] :=
    mergeSort_eq_of_perm (by decide) (by decide)
  have hdirectory : linkedTree.held? ⟨"/", []⟩ "a" = some ⟨"/a", ["a"]⟩ := rfl
  have hinner : linkedTree.held? ⟨"/a", ["a"]⟩ "x.Mod" =
      some ⟨"/a/x.Mod", ["a", "x.Mod"]⟩ := rfl
  have hbad : linkedTree.held? ⟨"/", []⟩ "a.Mod" = some ⟨"/a.Mod", ["a.Mod"]⟩ := rfl
  have hlink : linkedTree.held? ⟨"/", []⟩ "b.Mod" = some ⟨"/b.Mod", ["a"]⟩ :=
    held?_of_link rfl hb
  have hlinked : linkedTree.held? ⟨"/b.Mod", ["a"]⟩ "x.Mod" =
      some ⟨"/b.Mod/x.Mod", ["a", "x.Mod"]⟩ := rfl
  have hfile : linkedTree.held? ⟨"/", []⟩ "c.mod" = some ⟨"/c.mod", ["a.Mod"]⟩ :=
    held?_of_link rfl hc
  rw [walk_of_directory hroot rfl, htop, walkNames_of_directory hdirectory rfl ha rfl, hbelow,
    walkNames_of_not_directory hinner (by decide), walkNames_of_not_directory hbad (by decide),
    walkNames_of_directory hlink rfl hb rfl, hbelow,
    walkNames_of_not_directory hlinked (by decide), walkNames_of_not_directory hfile (by decide)]
  simp only [walkNames]
  rfl

theorem candidates_linkedTree :
    linkedTree.candidates "/" =
      (["/a/x.Mod", "/a.Mod", "/b.Mod/x.Mod", "/c.mod"] : List Path) := by
  rw [candidates, walk_linkedTree]
  rfl

theorem yields_linkedTree : linkedTree.yields ["/a/x.Mod", "/a.Mod", "/b.Mod/x.Mod", "/c.mod"] =
    ⟨[⟨"X", [], some "/a/x.Mod"⟩, ⟨"X", [], some "/b.Mod/x.Mod"⟩],
      [⟨"/a.Mod", .nameNotFound⟩, ⟨"/c.mod", .nameNotFound⟩]⟩ := by
  obtain ⟨-, -, hax, ha, -, hbx, hc⟩ := resolve_linkedTree
  have hgood : linkedTree.read "/a/x.Mod" = .ok (Text.Utf8.encode "Module X;") ∧
      linkedTree.read "/b.Mod/x.Mod" = .ok (Text.Utf8.encode "Module X;") := by
    constructor
    · rw [read, hax]; rfl
    · rw [read, hbx]; rfl
  have hbad : linkedTree.extract "/a.Mod" = .error .nameNotFound ∧
      linkedTree.extract "/c.mod" = .error .nameNotFound := by
    constructor <;> apply extract_of_read_nil
    · rw [read, ha]; rfl
    · rw [read, hc]; rfl
  have hmodule : Module.ofBytes? (Text.Utf8.encode "Module X;") = some ⟨"X", [], none⟩ := by
    decide +kernel
  simp [yields, failureAt?, extract_of_read hgood.1, extract_of_read hgood.2, hmodule, hbad,
    Except.toOption]

theorem scan_linkedTree : linkedTree.ProperlyNamed ∧
    (linkedTree.scan "/" .collect).result =
      .ok ⟨[⟨"X", [], some "/a/x.Mod"⟩, ⟨"X", [], some "/b.Mod/x.Mod"⟩],
        [⟨"/a.Mod", .nameNotFound⟩, ⟨"/c.mod", .nameNotFound⟩]⟩ ∧
    (∀ path, linkedTree.IsCandidate "/" path ↔
      path ∈ (["/a/x.Mod", "/b.Mod/x.Mod", "/a.Mod", "/c.mod"] : List Path)) ∧
    {path | linkedTree.IsCandidate "/" path}.ncard = 4 ∧
    Path.Precedes "/" "/a/x.Mod" "/b.Mod/x.Mod" ∧ Path.Precedes "/" "/a.Mod" "/c.mod" := by
  have hproper : linkedTree.ProperlyNamed := by
    unfold ProperlyNamed Path.IsEntryName
    decide
  have hscan : (linkedTree.scan "/" .collect).result =
      .ok ⟨[⟨"X", [], some "/a/x.Mod"⟩, ⟨"X", [], some "/b.Mod/x.Mod"⟩],
        [⟨"/a.Mod", .nameNotFound⟩, ⟨"/c.mod", .nameNotFound⟩]⟩ := by
    rw [result_scan_collect_eq_ok, candidates_linkedTree, walk_linkedTree]
    exact ⟨rfl, yields_linkedTree⟩
  obtain ⟨sources, hsources, -, hmem, hcount, hascending, hfailures, -⟩ :=
    scan_accounts_for_candidates hproper hscan
  obtain rfl : (["/a/x.Mod", "/b.Mod/x.Mod"] : List Path) = sources :=
    (List.map_injective_iff.mpr (Option.some_injective Path)) hsources
  refine ⟨hproper, hscan, fun path => ?_, hcount.symm, ?_, ?_⟩
  · rw [← hmem path]
    simp [or_assoc]
  · exact List.rel_of_pairwise_cons hascending List.mem_cons_self
  · exact List.rel_of_pairwise_cons hfailures List.mem_cons_self

/-- A name that ends in `.Mod` and holds a byte that begins a longer character and is not followed
by its rest. -/
def cutOffName : FileName := [0x63, 0x61, 0x66, 0xE9] ++ Path.ofText ".Mod"

/-- A directory with a file of this name that declares a module. -/
def cutOffNameTree : FileSystem where
  entries := [([cutOffName], .file (Text.Utf8.encode "MODULE A;"))]
  distinct := by simp
  cwd := []

theorem resolve_cutOffNameTree : cutOffNameTree.resolve "/" = .ok [] :=
  resolve_eq_ok.mpr ⟨by decide, by decide, by decide,
    .stay rfl (.inl rfl) (.stay rfl (.inl rfl) .here)⟩

theorem reachesFile_cutOffNameTree :
    cutOffNameTree.ReachesFile "/" (Path.slash :: cutOffName) cutOffName := by
  refine ⟨[cutOffName], [cutOffName], Text.Utf8.encode "MODULE A;", ?_, rfl, by decide⟩
  rw [reachedFrom?_of_resolve resolve_cutOffNameTree]
  rfl

theorem walk_cutOffNameTree :
    cutOffNameTree.walk "/" = ⟨[⟨"/", []⟩, ⟨Path.slash :: cutOffName, [cutOffName]⟩], none⟩ := by
  have hchildren : cutOffNameTree.children [] = [cutOffName] :=
    mergeSort_eq_of_perm (by decide) (by decide)
  have hfile : cutOffNameTree.held? ⟨"/", []⟩ cutOffName =
      some ⟨Path.slash :: cutOffName, [cutOffName]⟩ := rfl
  rw [walk_of_directory resolve_cutOffNameTree rfl, hchildren,
    walkNames_of_not_directory hfile (by decide), walkNames]
  rfl

theorem scan_cutOffNameTree : (cutOffNameTree.scan "/" .collect).result = .ok .empty := by
  have hcandidates : cutOffNameTree.candidates "/" = [] := by
    rw [candidates, walk_cutOffNameTree]
    rfl
  rw [result_scan_collect, walk_cutOffNameTree, hcandidates]
  rfl

/-- A scan does not account for every file whose name ends in `.Mod` or `.mod`: it passes over those
whose names are not UTF-8. -/
theorem scan_passes_over_module_file :
    ¬ ∀ (fs : FileSystem) (root : Path) (summary : Summary), fs.ProperlyNamed →
      (fs.scan root .collect).result = .ok summary → ∀ path,
        some path ∈ summary.modules.map (·.source) ∨ path ∈ summary.failures.map (·.path) ↔
          ∃ name, fs.ReachesFile root path name ∧ Path.EndsLikeModule name := by
  intro haccounts
  have hproper : cutOffNameTree.ProperlyNamed := by
    unfold ProperlyNamed Path.IsEntryName
    decide
  have hends : Path.EndsLikeModule cutOffName := .inl (List.suffix_append _ _)
  have hlisted := (haccounts cutOffNameTree "/" .empty hproper scan_cutOffNameTree _).mpr
    ⟨cutOffName, reachesFile_cutOffNameTree, hends⟩
  simp [Summary.empty] at hlisted

end FileSystem

end OberonImports
