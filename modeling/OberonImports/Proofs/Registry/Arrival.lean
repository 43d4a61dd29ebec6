import OberonImports.Proofs.Graph.SameEdges
import OberonImports.Proofs.Graph.OfRegistry
import OberonImports.Proofs.Registry.Insertion

/-!
# The order in which modules arrive

A registry that rejects repeats holds the modules that arrived, so it tells nothing of their order.
One that merges them keeps the order of the first imports, but which name imports which does not
depend on it. What is made of the imports as a set does not either: the unresolved imports, nodes
and edges, cycles, and the ranks of a graph without cycles.
-/

namespace OberonImports.Registry

open OberonImports.Graph (SameEdges edge_ofRegistry nodes_ofRegistry nodesOf ofRegistry
  placeholders)

variable {registry other next : Registry} {modules others : List Module} {new old module : Module}
  {policy : DuplicatePolicy} {source target name : String}

/-! ## Registries with the same imports -/

/-- The module of the first name imports the second. -/
def ImportsFrom (registry : Registry) (source target : String) : Prop :=
  ∃ module, registry.get? source = some module ∧ target ∈ module.imports

theorem importsFrom_iff : registry.ImportsFrom source target ↔
    ∃ module ∈ registry.modules, module.name = source ∧ target ∈ module.imports := by
  simp only [ImportsFrom, get?_eq_some_iff, and_assoc]

theorem imports_iff : registry.Imports target ↔ ∃ source, registry.ImportsFrom source target := by
  simp only [Imports, importsFrom_iff]
  constructor
  · rintro ⟨module, hmodule, himport⟩
    exact ⟨module.name, module, hmodule, rfl, himport⟩
  · rintro ⟨_, module, hmodule, -, himport⟩
    exact ⟨module, hmodule, himport⟩

theorem declares_iff : registry.Declares name ↔ name ∈ registry.modules.map (·.name) :=
  List.mem_map.symm

/-- Two registries have the same names, and each name the same imports in whatever order. -/
structure SameImports (registry other : Registry) : Prop where
  names : registry.modules.map (·.name) = other.modules.map (·.name)
  imports : ∀ source target, registry.ImportsFrom source target ↔ other.ImportsFrom source target

namespace SameImports

theorem declares (hsame : SameImports registry other) :
    registry.Declares name ↔ other.Declares name := by
  rw [declares_iff, hsame.names, declares_iff]

theorem unresolvedImports_eq (hsame : SameImports registry other) :
    registry.unresolvedImports = other.unresolvedImports := by
  apply registry.pairwise_unresolvedImports.eq_of_mem_iff other.pairwise_unresolvedImports
  intro name
  simp only [mem_unresolvedImports, imports_iff, hsame.imports, hsame.declares]

theorem nodesOf_eq (hsame : SameImports registry other) (policy : UnresolvedPolicy) :
    nodesOf registry policy = nodesOf other policy := by
  have hmodules : registry.modules.map (fun module => (⟨module.name, false⟩ : Node)) =
      other.modules.map (fun module => ⟨module.name, false⟩) := by
    have hnodes := congrArg (List.map fun name => (⟨name, false⟩ : Node)) hsame.names
    rwa [List.map_map, List.map_map] at hnodes
  rw [Graph.nodesOf_eq, Graph.nodesOf_eq, hmodules]
  cases policy with
  | drop => rfl
  | placeholder => rw [placeholders, placeholders, hsame.unresolvedImports_eq]

theorem sameEdges (hsame : SameImports registry other) (policy : UnresolvedPolicy) :
    SameEdges (ofRegistry registry policy) (ofRegistry other policy) := by
  have hnodes : (ofRegistry registry policy).nodes = (ofRegistry other policy).nodes := by
    rw [nodes_ofRegistry, nodes_ofRegistry, hsame.nodesOf_eq]
  refine ⟨hnodes, fun source target => ?_⟩
  rw [edge_ofRegistry, edge_ofRegistry, ← importsFrom_iff, ← importsFrom_iff,
    hsame.imports source target, Graph.names, hnodes, Graph.names]

theorem toFinset_imports (hsame : SameImports registry other) (name : String) :
    (registry.get? name).map (·.imports.toFinset) =
      (other.get? name).map (·.imports.toFinset) := by
  have himports := hsame.imports name
  unfold ImportsFrom at himports
  cases hget : registry.get? name with
  | none =>
      have hnot := get?_eq_none_iff.mp hget
      rw [hsame.declares, ← get?_eq_none_iff] at hnot
      rw [hnot]
  | some module =>
      cases hother : other.get? name with
      | none =>
          have hnot := get?_eq_none_iff.mp hother
          rw [← hsame.declares, ← get?_eq_none_iff, hget] at hnot
          cases hnot
      | some twin =>
          rw [hget, hother] at himports
          simp only [Option.map_some, Option.some.injEq]
          ext target
          simpa using himports target

end SameImports

/-! ## The last module -/

theorem build_concat (modules : List Module) (new : Module) (policy : DuplicatePolicy) :
    build (modules ++ [new]) policy =
      (build modules policy).bind fun registry => (registry.insert policy new).accepted := by
  unfold build
  rw [List.foldlM_append]
  cases modules.foldlM (fun registry new => (registry.insert policy new).accepted) empty with
  | error error => rfl
  | ok registry =>
      change ((registry.insert policy new).accepted >>= pure) = (registry.insert policy new).accepted
      exact bind_pure _

theorem accepted_eq_ok_iff {inserted : Inserted} : inserted.accepted = .ok registry ↔
    inserted.error? = none ∧ inserted.registry = registry := by
  unfold Inserted.accepted
  split <;> simp_all

/-- The last module is inserted into the registry of those before it. -/
theorem exists_of_build_concat (hbuild : build (modules ++ [new]) policy = .ok next) :
    ∃ registry, build modules policy = .ok registry ∧
      (registry.insert policy new).error? = none ∧
      (registry.insert policy new).registry = next := by
  rw [build_concat] at hbuild
  cases hbefore : build modules policy with
  | error error =>
      rw [hbefore] at hbuild
      cases hbuild
  | ok registry =>
      rw [hbefore] at hbuild
      exact ⟨registry, rfl, accepted_eq_ok_iff.mp hbuild⟩

/-! ## Merging -/

/-- The imports of a merged declaration are those of both. -/
theorem mem_imports_merge :
    target ∈ (old.merge new).imports ↔ target ∈ old.imports ∨ target ∈ new.imports := by
  unfold Module.merge
  -- On the imports of the new declaration from their end: each is there, or is put behind.
  induction new.imports using List.reverseRecOn with
  | nil => simp
  | append_singleton imports last ih =>
      simp only [List.foldl_append, List.foldl_cons, List.foldl_nil] at ih ⊢
      split
      next hmem =>
        rw [ih]
        grind
      next => grind

/-- Merging adds the imports of the new declaration to those of its name. -/
theorem importsFrom_of_insert (haccepted : (registry.insert .merge new).error? = none) :
    (registry.insert .merge new).registry.ImportsFrom source target ↔
      registry.ImportsFrom source target ∨ new.name = source ∧ target ∈ new.imports := by
  unfold ImportsFrom
  rw [get?_of_insert haccepted]
  by_cases hsource : source = new.name
  · cases hget : registry.get? source with
    | none => simp [hsource, settled]
    | some old => simp [hsource, settled, DuplicatePolicy.settle, mem_imports_merge]
  · simp [hsource, Ne.symm hsource]

/-- A registry holds the names of some modules, each with what one of them imports. -/
structure Gathers (registry : Registry) (modules : List Module) : Prop where
  declares : ∀ name, registry.Declares name ↔ ∃ module ∈ modules, module.name = name
  imports : ∀ source target, registry.ImportsFrom source target ↔
    ∃ module ∈ modules, module.name = source ∧ target ∈ module.imports

/-- By induction from the last module: each adds its name and imports. -/
theorem gathers_of_build_merge (hbuild : build modules .merge = .ok registry) :
    registry.Gathers modules := by
  induction modules using List.reverseRecOn generalizing registry with
  | nil =>
      cases hbuild
      refine ⟨fun name => ?_, fun source target => ?_⟩
      · simp [Declares, empty]
      · simp [importsFrom_iff, empty]
  | append_singleton modules new ih =>
      obtain ⟨before, hbefore, haccepted, rfl⟩ := exists_of_build_concat hbuild
      refine ⟨fun name => ?_, fun source target => ?_⟩
      · rw [← contains_iff, contains_insert, contains_iff, (ih hbefore).declares]
        simp [or_and_right, exists_or]
      · rw [importsFrom_of_insert haccepted, (ih hbefore).imports]
        simp [or_and_right, exists_or]

/-- What is gathered does not depend on the order. -/
theorem Gathers.sameImports (hgathers : registry.Gathers modules) (hothers : other.Gathers others)
    (hperm : modules.Perm others) : SameImports registry other where
  names := by
    apply (List.pairwise_map.mpr registry.ascending).eq_of_mem_iff
      (List.pairwise_map.mpr other.ascending)
    intro name
    rw [← declares_iff, ← declares_iff, hgathers.declares, hothers.declares]
    simp only [hperm.mem_iff]
  imports := fun source target => by
    rw [hgathers.imports, hothers.imports]
    simp only [hperm.mem_iff]

/-! ## Rejecting -/

/-- Registries that hold the same modules are equal. -/
theorem eq_of_perm (hperm : registry.modules.Perm other.modules) : registry = other := by
  have hirrefl : Std.Irrefl fun lower upper : Module => lower.name < upper.name :=
    ⟨fun module => lt_irrefl module.name⟩
  have hmodules : registry.modules = other.modules :=
    registry.ascending.eq_of_mem_iff other.ascending fun _ => hperm.mem_iff
  cases registry
  cases other
  cases hmodules
  rfl

theorem perm_place (hnew : ∀ old ∈ modules, old.name ≠ new.name) :
    (place policy new modules).Perm (new :: modules) := by
  fun_induction place policy new modules with
  | case1 => exact .rfl
  | case2 => exact .rfl
  | case3 old modules hlt heq => exact absurd heq.symm (hnew old List.mem_cons_self)
  | case4 old modules hlt hne ih =>
      exact ((ih fun module hmem => hnew module (List.mem_cons_of_mem old hmem)).cons old).trans
        (.swap new old modules)

/-- A module is accepted beside modules of other names only. -/
theorem perm_of_insert_reject (haccepted : (registry.insert .reject new).error? = none) :
    (registry.insert .reject new).registry.modules.Perm (new :: registry.modules) := by
  rw [modules_of_insert haccepted]
  refine perm_place fun old hold hname => ?_
  exact error?_insert_ne_none_iff.mpr ⟨rfl, contains_iff.mpr ⟨old, hold, hname⟩⟩ haccepted

theorem perm_of_build_reject (hbuild : build modules .reject = .ok registry) :
    registry.modules.Perm modules := by
  induction modules using List.reverseRecOn generalizing registry with
  | nil =>
      cases hbuild
      exact .nil
  | append_singleton modules new ih =>
      obtain ⟨before, hbefore, haccepted, rfl⟩ := exists_of_build_concat hbuild
      exact (perm_of_insert_reject haccepted).trans
        (((ih hbefore).cons new).trans (List.perm_append_singleton new modules).symm)

theorem nodup_of_build_reject (hbuild : build modules .reject = .ok registry) :
    (modules.map (·.name)).Nodup :=
  ((perm_of_build_reject hbuild).map (·.name)).nodup_iff.mp registry.nodup_names

/-- All modules are accepted, each behind those before it, unless a repeat is to be rejected. -/
theorem exists_build (hnames : policy = .reject → (modules.map (·.name)).Nodup) :
    ∃ registry, build modules policy = .ok registry := by
  induction modules using List.reverseRecOn with
  | nil => exact ⟨empty, rfl⟩
  | append_singleton modules new ih =>
      simp only [List.map_append, List.nodup_append] at hnames
      obtain ⟨registry, hbuild⟩ := ih fun hreject => (hnames hreject).1
      rw [build_concat, hbuild]
      by_cases haccepted : (registry.insert policy new).error? = none
      · exact ⟨_, accepted_eq_ok_iff.mpr ⟨haccepted, rfl⟩⟩
      · obtain ⟨rfl, hcontains⟩ := error?_insert_ne_none_iff.mp haccepted
        obtain ⟨old, hold, hname⟩ := contains_iff.mp hcontains
        have hmem := (perm_of_build_reject hbuild).mem_iff.mp hold
        exact absurd hname ((hnames rfl).2.2 _ (List.mem_map_of_mem hmem) _ List.mem_cons_self)

/-- Only a repeat that is to be rejected keeps a registry from being built. -/
theorem exists_build_eq_error_iff : (∃ error, build modules policy = .error error) ↔
    policy = .reject ∧ ¬ (modules.map (·.name)).Nodup := by
  constructor
  · rintro ⟨error, herror⟩
    by_contra hallowed
    obtain ⟨registry, hbuild⟩ := exists_build fun hreject =>
      not_not.mp fun hrepeat => hallowed ⟨hreject, hrepeat⟩
    rw [herror] at hbuild
    cases hbuild
  · rintro ⟨rfl, hrepeat⟩
    cases hbuild : build modules .reject with
    | error error => exact ⟨error, rfl⟩
    | ok registry => exact absurd (nodup_of_build_reject hbuild) hrepeat

/-- Rejecting repeats gives the registry that holds just the modules, if there is one. -/
theorem build_reject_eq_ok_iff :
    build modules .reject = .ok registry ↔ registry.modules.Perm modules := by
  refine ⟨perm_of_build_reject, fun hperm => ?_⟩
  obtain ⟨built, hbuild⟩ :=
    exists_build fun _ => (hperm.map (·.name)).nodup_iff.mp registry.nodup_names
  rw [hbuild, eq_of_perm ((perm_of_build_reject hbuild).trans hperm.symm)]

/-- Merging refuses no module, and in whatever order the modules arrive, the names, the imports of
each name and the unresolved imports are the same, the graph has the same nodes and edges and the
same cycles, and without cycles the same ranks. Rejecting repeats accepts the modules in any order
or in none, and gives the same registry. -/
theorem build_of_perm (hperm : modules.Perm others) :
    (∃ registry other, build modules .merge = .ok registry ∧ build others .merge = .ok other ∧
      registry.modules.map (·.name) = other.modules.map (·.name) ∧
      (∀ name, (registry.get? name).map (·.imports.toFinset) =
        (other.get? name).map (·.imports.toFinset)) ∧
      registry.unresolvedImports = other.unresolvedImports ∧
      ∀ policy,
        (ofRegistry registry policy).nodes = (ofRegistry other policy).nodes ∧
        (∀ source target, (ofRegistry registry policy).Edge source target ↔
          (ofRegistry other policy).Edge source target) ∧
        (ofRegistry registry policy).cycles = (ofRegistry other policy).cycles ∧
        ((ofRegistry registry policy).Acyclic →
          (ofRegistry registry policy).ranks = (ofRegistry other policy).ranks)) ∧
    ∀ registry, build modules .reject = .ok registry ↔ build others .reject = .ok registry := by
  constructor
  · have hmerge : ∀ modules, ∃ registry, build modules .merge = .ok registry :=
      fun _ => exists_build nofun
    obtain ⟨registry, hbuild⟩ := hmerge modules
    obtain ⟨other, hother⟩ := hmerge others
    have hsame := (gathers_of_build_merge hbuild).sameImports (gathers_of_build_merge hother) hperm
    refine ⟨registry, other, hbuild, hother, hsame.names, hsame.toFinset_imports,
      hsame.unresolvedImports_eq, fun policy => ?_⟩
    have hedges := hsame.sameEdges policy
    have hgraph := Graph.wellFormed_ofRegistry registry policy
    have hmirror := Graph.wellFormed_ofRegistry other policy
    exact ⟨hedges.nodes, hedges.edge, hedges.cycles_eq hgraph hmirror,
      hedges.ranks_eq hgraph hmirror⟩
  · intro registry
    rw [build_reject_eq_ok_iff, build_reject_eq_ok_iff]
    exact ⟨fun hmodules => hmodules.trans hperm, fun hothers => hothers.trans hperm.symm⟩

/-- `A` is declared twice, and one of its imports both times. -/
def twiceDeclared : List Module :=
  [⟨"A", ["B", "C"], none⟩, ⟨"B", ["C"], none⟩, ⟨"A", ["C", "X"], none⟩]

/-- In reverse order `A` has the same imports in another order, and the ranks agree. -/
theorem build_twiceDeclared : twiceDeclared.Perm twiceDeclared.reverse ∧
    (∃ registry other, build twiceDeclared .merge = .ok registry ∧
      build twiceDeclared.reverse .merge = .ok other ∧ registry.modules ≠ other.modules ∧
      registry.unresolvedImports = other.unresolvedImports ∧
      (ofRegistry registry .placeholder).Acyclic ∧
      (ofRegistry registry .placeholder).ranks = (ofRegistry other .placeholder).ranks) ∧
    build twiceDeclared .reject = .error ⟨"A", none, none⟩ ∧
    ∀ registry, build twiceDeclared.reverse .reject ≠ .ok registry := by
  have hperm : twiceDeclared.Perm twiceDeclared.reverse := by decide
  obtain ⟨⟨registry, other, hbuild, hother, -, -, hunresolved, hgraphs⟩, hreject⟩ :=
    build_of_perm hperm
  obtain ⟨-, -, -, hranks⟩ := hgraphs .placeholder
  have hmodules : registry.modules = [⟨"A", ["B", "C", "X"], none⟩, ⟨"B", ["C"], none⟩] := by
    cases hbuild
    rfl
  have hothers : other.modules = [⟨"A", ["C", "X", "B"], none⟩, ⟨"B", ["C"], none⟩] := by
    cases hother
    rfl
  have hacyclic : (ofRegistry registry .placeholder).Acyclic := by
    have hfalls : ∀ module ∈ ([⟨"A", ["B", "C", "X"], none⟩, ⟨"B", ["C"], none⟩] : List Module),
        ∀ target ∈ module.imports,
          ["C", "X", "B", "A"].idxOf target < ["C", "X", "B", "A"].idxOf module.name := by decide
    refine .of_height (Graph.wellFormed_ofRegistry _ _) ["C", "X", "B", "A"].idxOf ?_
    intro edge hedge
    obtain ⟨⟨module, hmodule, hname, himport⟩, -⟩ := edge_ofRegistry.mp hedge
    rw [hmodules] at hmodule
    exact hname ▸ hfalls module hmodule edge.2 himport
  have herror : build twiceDeclared .reject = .error ⟨"A", none, none⟩ := rfl
  refine ⟨hperm, ⟨registry, other, hbuild, hother, by rw [hmodules, hothers]; decide, hunresolved,
    hacyclic, hranks hacyclic⟩, herror, fun registry hreverse => ?_⟩
  rw [← hreject, herror] at hreverse
  cases hreverse

end OberonImports.Registry
