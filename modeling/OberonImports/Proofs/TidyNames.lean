import OberonImports.Proofs.Analysis
import OberonImports.Proofs.Graph.DotGroups
import OberonImports.Proofs.Registry.Arrival
import OberonImports.Proofs.Scan.CommentBytes
import OberonImports.Proofs.Source.Name

/-!
# The names in an analysis

Source texts give tidy names only, and no stage of an analysis makes up others: the registry settles
repeats with the names that it was given, and placeholders are named by imports. So no node has an
empty name, and a drawing by first characters, which leaves such nodes out of its clusters, leaves
out none.
-/

namespace OberonImports

/-! ## The registry -/

namespace Module

variable {old new : Module} {policy : DuplicatePolicy}

theorem IsTidy.merge (hold : old.IsTidy) (hnew : new.IsTidy) : (old.merge new).IsTidy where
  name := hold.name
  declared := hold.declared
  imports := by
    intro name hname
    rcases Registry.mem_imports_merge.mp hname with himport | himport
    · exact hold.imports name himport
    · exact hnew.imports name himport

/-- Whichever declaration stays, and whatever it takes from the other, its names are tidy. -/
theorem IsTidy.settle (hold : old.IsTidy) (hnew : new.IsTidy) : (policy.settle old new).IsTidy := by
  cases policy with
  | reject => exact hold
  | overwrite => exact hnew
  | merge => exact hold.merge hnew

end Module

namespace Registry

variable {registry next : Registry} {modules : List Module} {new : Module}
  {policy : DuplicatePolicy} {P : Module → Prop}

theorem forall_mem_place (hsettle : ∀ old, P old → P (policy.settle old new)) (hnew : P new)
    (hmodules : ∀ module ∈ modules, P module) : ∀ module ∈ place policy new modules, P module := by
  fun_induction place policy new modules with
  | case1 => exact List.forall_mem_singleton.mpr hnew
  | case2 old modules => exact List.forall_mem_cons.mpr ⟨hnew, hmodules⟩
  | case3 old modules =>
      obtain ⟨hold, hrest⟩ := List.forall_mem_cons.mp hmodules
      exact List.forall_mem_cons.mpr ⟨hsettle old hold, hrest⟩
  | case4 old modules _ _ ih =>
      obtain ⟨hold, hrest⟩ := List.forall_mem_cons.mp hmodules
      exact List.forall_mem_cons.mpr ⟨hold, ih hrest⟩

/-- What settling keeps holds of all modules of a registry if it holds of those that it was built
from. -/
theorem forall_mem_of_build (hsettle : ∀ old new, P old → P new → P (policy.settle old new))
    (hmodules : ∀ module ∈ modules, P module) (hbuild : build modules policy = .ok registry) :
    ∀ module ∈ registry.modules, P module := by
  induction modules using List.reverseRecOn generalizing registry with
  | nil =>
      cases hbuild
      exact List.forall_mem_nil P
  | append_singleton modules new ih =>
      obtain ⟨hbefore, hlast⟩ := List.forall_mem_append.mp hmodules
      have hnew := hlast new List.mem_cons_self
      obtain ⟨before, hbefore', haccepted, rfl⟩ := exists_of_build_concat hbuild
      rw [modules_of_insert haccepted]
      apply forall_mem_place _ hnew (ih hbefore hbefore')
      exact fun old hold => hsettle old new hold hnew

/-- A registry with tidy names only. -/
def IsTidy (registry : Registry) : Prop := ∀ module ∈ registry.modules, module.IsTidy

theorem isTidy_of_build (hmodules : ∀ module ∈ modules, module.IsTidy)
    (hbuild : build modules policy = .ok registry) : registry.IsTidy :=
  forall_mem_of_build (fun _ _ hold hnew => hold.settle hnew) hmodules hbuild

theorem IsTidy.of_imports {name : String} (hregistry : registry.IsTidy)
    (himport : registry.Imports name) : IsTidyName name ∧ ',' ∉ name.toList := by
  obtain ⟨module, hmodule, hname⟩ := himport
  exact (hregistry module hmodule).imports name hname

end Registry

/-! ## The scan -/

namespace FileSystem

variable {fs : FileSystem} {root path : Path} {module : Module} {policy : ErrorPolicy}
  {summary : Summary}

theorem isTidy_of_extract (hextract : fs.extract path = .ok module) : module.IsTidy := by
  unfold extract at hextract
  split at hextract
  next => cases hextract
  next bytes _ =>
    split at hextract
    next => cases hextract
    next declared hdeclared =>
      cases hextract
      have htidy := Module.isTidy_of_ofText? hdeclared
      exact ⟨htidy.name, htidy.declared, htidy.imports⟩

/-- A scan finds modules with tidy names only. -/
theorem isTidy_of_scan (hscan : (fs.scan root policy).result = .ok summary) :
    ∀ module ∈ summary.modules, module.IsTidy := by
  have hcollect : (fs.scan root .collect).result = .ok summary := by
    cases policy with
    | abort => exact (result_scan_abort_eq_ok.mp hscan).1
    | collect => exact hscan
  intro module hmodule
  rw [← (result_scan_collect_eq_ok.mp hcollect).2] at hmodule
  obtain ⟨path, -, hextract⟩ := List.mem_filterMap.mp hmodule
  cases hresult : fs.extract path with
  | error error =>
      rw [hresult] at hextract
      cases hextract
  | ok found =>
      rw [hresult] at hextract
      obtain rfl : found = module := Option.some.inj hextract
      exact isTidy_of_extract hresult

end FileSystem

/-! ## The graph and its drawing -/

namespace Graph

variable {graph : Graph} {ranks : Ranks} {registry : Registry} {name : String}

theorem isTidyName_of_mem_nodes (policy : UnresolvedPolicy) (hregistry : registry.IsTidy) :
    ∀ node ∈ (ofRegistry registry policy).nodes,
      IsTidyName node.name ∧ (node.isPlaceholder = true → ',' ∉ node.name.toList) := by
  intro node hnode
  rw [nodes_ofRegistry, nodesOf_eq] at hnode
  rcases List.mem_append.mp hnode with hdeclared | hundeclared
  · obtain ⟨module, hmodule, rfl⟩ := List.mem_map.mp hdeclared
    exact ⟨(hregistry module hmodule).name, nofun⟩
  · obtain ⟨name, hname, rfl⟩ := List.mem_map.mp hundeclared
    obtain ⟨htidy, hcomma⟩ := hregistry.of_imports (mem_placeholders_iff.mp hname).2.1
    exact ⟨htidy, fun _ => hcomma⟩

namespace Dot

/-- If no name is empty, the clusters hold all names, each once. -/
theorem flatten_drawnClusters_perm (hnames : graph.names.Nodup)
    (hne : ∀ name ∈ graph.names, name ≠ "") :
    ((drawnClusters (statements graph ranks .alphabetic)).map (·.2)).flatten.Perm graph.names := by
  have hall : graph.names.filter (· ≠ "") = graph.names :=
    List.filter_eq_self.mpr fun name hname => decide_eq_true (hne name hname)
  have hperm := (groupedBy_initialOf hnames).perm
  rw [hall] at hperm
  rw [drawnClusters_alphabetic, List.map_map]
  exact hperm

/-- A name that is not empty stands in one cluster, that of its first character. -/
theorem existsUnique_drawnCluster (hname : name ∈ graph.names) (hne : name ≠ "") :
    ∃! cluster, cluster ∈ drawnClusters (statements graph ranks .alphabetic) ∧
      name ∈ cluster.2 := by
  have hhead : name.toList.head? = some (initialOf name) := head?_eq_some_iff.mpr ⟨hne, rfl⟩
  rw [drawnClusters_alphabetic]
  refine ⟨_, ⟨List.mem_map.mpr ⟨initialOf name, ?_, rfl⟩, ?_⟩, ?_⟩
  · exact mem_initials.mpr ⟨name, hname, hhead⟩
  · exact mem_clusterMembers.mpr ⟨hname, hhead⟩
  · intro cluster ⟨hcluster, hmember⟩
    obtain ⟨initial, -, rfl⟩ := List.mem_map.mp hcluster
    have hinitial := (mem_clusterMembers.mp hmember).2
    rw [hhead] at hinitial
    rw [Option.some.inj hinitial]

end Dot

end Graph

/-! ## The analysis -/

section

variable {fs : FileSystem} {config : Config} {policy : ErrorPolicy} {analysis : Analysis}

theorem isTidy_of_analyzeWith (hanalysis : (analyzeWith fs config policy).result = .ok analysis) :
    analysis.registry.IsTidy := by
  obtain ⟨summary, registry, hscan, hbuild, rfl⟩ := analyzeWith_eq_ok.mp hanalysis
  exact Registry.isTidy_of_build (FileSystem.isTidy_of_scan hscan) hbuild

/-- An analysis that comes to its end has tidy names only, whatever the source texts hold and
however repeats are settled: modules, their imports and the nodes of the graph are named by
something that has no blanks at its ends and holds no semicolon, nor a comma if it is an import. So
a drawing by first characters has every node, placeholders included, in exactly one cluster. -/
theorem analyzeWith_tidy_names (hanalysis : (analyzeWith fs config policy).result = .ok analysis) :
    (∀ module ∈ analysis.registry.modules, IsTidyName module.name ∧
      ∀ name ∈ module.imports, IsTidyName name ∧ ',' ∉ name.toList) ∧
    (∀ node ∈ analysis.graph.nodes, IsTidyName node.name ∧
      (node.isPlaceholder = true → ',' ∉ node.name.toList)) ∧
    ∀ options : Graph.DotOptions, options.layout = .alphabetic →
      ∃ statements : List Graph.Dot.Statement,
        analysis.dot options = Text.unlines (Graph.Dot.header options ++
          statements.map Graph.Dot.Statement.text) ∧
        Graph.Dot.readStatements? options (analysis.dot options) = some statements ∧
        analysis.graph.names.Nodup ∧
        ((Graph.Dot.drawnClusters statements).map (·.2)).flatten.Perm analysis.graph.names ∧
        ∀ node ∈ analysis.graph.nodes, ∃! cluster,
          cluster ∈ Graph.Dot.drawnClusters statements ∧ node.name ∈ cluster.2 := by
  have hregistry := isTidy_of_analyzeWith hanalysis
  obtain ⟨summary, registry, -, -, rfl⟩ := analyzeWith_eq_ok.mp hanalysis
  have hnodes := Graph.isTidyName_of_mem_nodes config.unresolved hregistry
  refine ⟨fun module hmodule => ?_, hnodes, fun options hlayout => ?_⟩
  · exact ⟨(hregistry module hmodule).name, (hregistry module hmodule).imports⟩
  · let graph := Graph.ofRegistry registry config.unresolved
    have hgraph : graph.WellFormed := Graph.wellFormed_ofRegistry registry config.unresolved
    have hne : ∀ name ∈ graph.names, name ≠ "" := by
      intro name hname
      obtain ⟨node, hnode, rfl⟩ := List.mem_map.mp hname
      exact (hnodes node hnode).1.ne_empty
    refine ⟨Graph.Dot.statements graph graph.ranks options.layout, ?_,
      Graph.Dot.readStatements?_dot graph _ _, hgraph.nodup, ?_, ?_⟩
    · rw [← Graph.Dot.lines_eq]
      rfl
    · rw [hlayout]
      exact Graph.Dot.flatten_drawnClusters_perm hgraph.nodup hne
    · intro node hnode
      have hname := List.mem_map_of_mem (f := (·.name)) hnode
      rw [hlayout]
      exact Graph.Dot.existsUnique_drawnCluster hname (hne _ hname)

/-- The bytes of a module with entries that name nothing, such as an alias of nothing. -/
def entriesWithoutName : List UInt8 :=
  Text.Utf8.encode "MODULE A ; IMPORT X := , := , Y :=  B, , 1, (* *) ;"

/-- The configuration to analyze one module file, with placeholders. -/
def oneFileConfig : Config := { Config.ofTestDir "/A.Mod" with unresolved := .placeholder }

theorem analyzeWith_entriesWithoutName : ∃ analysis,
    (analyzeWith (.oneFile entriesWithoutName) oneFileConfig .collect).result = .ok analysis ∧
    analysis.registry.modules = [⟨"A", ["B", "1"], some "/A.Mod"⟩] ∧
    analysis.graph.nodes = [⟨"A", false⟩, ⟨"1", true⟩, ⟨"B", true⟩] ∧
    (∀ node ∈ analysis.graph.nodes, IsTidyName node.name) ∧
    ∃ statements, Graph.Dot.readStatements? ⟨.alphabetic, none, none⟩
        (analysis.dot ⟨.alphabetic, none, none⟩) = some statements ∧
      ∀ node ∈ analysis.graph.nodes, ∃! cluster,
        cluster ∈ Graph.Dot.drawnClusters statements ∧ node.name ∈ cluster.2 := by
  let fs : FileSystem := .oneFile entriesWithoutName
  have hwalk : fs.walk "/A.Mod" = ⟨[⟨"/A.Mod", ["A.Mod"]⟩], none⟩ := by
    rw [FileSystem.walk, (FileSystem.resolve_oneFile _).1]
    rfl
  have hcandidates : fs.candidates "/A.Mod" = (["/A.Mod"] : List Path) := by
    rw [FileSystem.candidates, hwalk]
    rfl
  have hmodule : Module.ofBytes? entriesWithoutName = some ⟨"A", ["B", "1"], none⟩ := by
    decide +kernel
  have hextract := FileSystem.extract_of_read (FileSystem.read_oneFile entriesWithoutName).1
  rw [hmodule] at hextract
  have hyields : fs.yields ["/A.Mod"] = ⟨[⟨"A", ["B", "1"], some "/A.Mod"⟩], []⟩ := by
    simp [fs, FileSystem.yields, FileSystem.failureAt?, hextract, Except.toOption]
  have hscan := FileSystem.result_scan_collect_eq_ok.mpr
    ⟨congrArg FileSystem.Walk.stop hwalk, hcandidates ▸ hyields⟩
  obtain ⟨analysis, hanalysis, rfl⟩ : ∃ analysis,
      (analyzeWith fs oneFileConfig .collect).result = .ok analysis ∧ analysis = _ :=
    ⟨_, analyzeWith_eq_ok.mpr ⟨_, _, hscan, rfl, rfl⟩, rfl⟩
  obtain ⟨-, hnodes, hdrawing⟩ := analyzeWith_tidy_names hanalysis
  obtain ⟨statements, -, hread, -, -, hclusters⟩ := hdrawing ⟨.alphabetic, none, none⟩ rfl
  refine ⟨_, hanalysis, rfl, ?_, fun node hnode => (hnodes node hnode).1, statements, hread,
    hclusters⟩
  have hsorted : ["B", "1"].mergeSort (· ≤ ·) = ["1", "B"] :=
    mergeSort_eq_of_perm (by decide) (by decide)
  let registry : Registry := ⟨[⟨"A", ["B", "1"], some "/A.Mod"⟩], by simp⟩
  have hunresolved : registry.unresolvedImports = ["1", "B"] := by
    change (["B", "1"].mergeSort (· ≤ ·)).eraseDups = _
    rw [hsorted]
    decide
  have hdrawn : Graph.nodesOf registry .placeholder = [⟨"A", false⟩, ⟨"1", true⟩, ⟨"B", true⟩] := by
    rw [Graph.nodesOf, hunresolved]
    rfl
  exact Graph.nodes_ofRegistry.trans hdrawn

end

end OberonImports
