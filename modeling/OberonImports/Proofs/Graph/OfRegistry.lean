import OberonImports.Proofs.Graph.Reachability
import OberonImports.Proofs.Lookup
import OberonImports.Proofs.Registry.Imports

/-!
# The graph of a registry

Drawing an edge unless there is one already keeps the first occurrence of each import. Since the
names of modules differ, the edges of a graph are those of its modules one after the other: the
distinct imports of each that are nodes. Placeholders are named by no module, so all names differ.
-/

namespace OberonImports.Graph

variable {graph : Graph} {registry : Registry} {policy : UnresolvedPolicy}
  {name source target : String}

/-- The edges of a module in a graph with the given names: the first occurrences of its imports, in
order, as far as they are nodes. -/
def importEdges (names : List String) (module : Module) : List (String × String) :=
  (module.imports.eraseDups.filter (· ∈ names)).map (module.name, ·)

/-- The graph with further edges behind its own. -/
def extend (graph : Graph) (edges : List (String × String)) : Graph :=
  { graph with edges := graph.edges ++ edges }

@[simp]
theorem names_extend (edges : List (String × String)) : (graph.extend edges).names = graph.names :=
  rfl

theorem edge_extend {edges : List (String × String)} :
    (graph.extend edges).Edge source target ↔
      graph.Edge source target ∨ (source, target) ∈ edges :=
  List.mem_append

theorem extend_nil : graph.extend [] = graph := by simp [extend]

theorem extend_extend (first second : List (String × String)) :
    (graph.extend first).extend second = graph.extend (first ++ second) := by
  simp [extend, List.append_assoc]

theorem mem_importEdges {names : List String} {module : Module} {edge : String × String} :
    edge ∈ importEdges names module ↔
      module.name = edge.1 ∧ edge.2 ∈ module.imports ∧ edge.2 ∈ names := by
  obtain ⟨source, target⟩ := edge
  simp only [importEdges, List.mem_map, List.mem_filter, List.mem_eraseDups, decide_eq_true_eq,
    Prod.mk.injEq]
  constructor
  · rintro ⟨imported, hmem, hname, rfl⟩
    exact ⟨hname, hmem⟩
  · rintro ⟨hname, hmem⟩
    exact ⟨target, hmem, hname, rfl⟩

theorem link_of_edge (hedge : graph.Edge source target) : graph.link source target = graph :=
  if_pos (List.contains_iff_mem.mpr hedge)

theorem link_of_not_edge (hnone : ¬ graph.Edge source target) :
    graph.link source target = graph.extend [(source, target)] :=
  if_neg fun hcontains => hnone (List.contains_iff_mem.mp hcontains)

/-- Drawing the imports of a module that has no edges yet draws the first occurrences of those that
are nodes. -/
theorem linkImports_eq {module : Module} (hnew : ∀ target, ¬ graph.Edge module.name target) :
    graph.linkImports module = graph.extend (importEdges graph.names module) := by
  unfold linkImports importEdges
  -- On the imports from their end: the last one adds an edge unless it occurred before.
  induction module.imports using List.reverseRecOn with
  | nil => simp [extend_nil]
  | append_singleton imports last ih =>
      rw [List.foldl_append, ih, List.foldl_cons, List.foldl_nil, names_extend, eraseDups_concat]
      have hdrawn : (graph.extend ((imports.eraseDups.filter (· ∈ graph.names)).map
          (module.name, ·))).Edge module.name last ↔ last ∈ imports ∧ last ∈ graph.names := by
        simp [edge_extend, hnew last]
      by_cases hnode : last ∈ graph.names
      · rw [if_pos hnode]
        by_cases hrepeat : last ∈ imports
        · rw [if_pos hrepeat, link_of_edge (hdrawn.mpr ⟨hrepeat, hnode⟩)]
        · rw [if_neg hrepeat, link_of_not_edge fun hedge => hrepeat (hdrawn.mp hedge).1,
            extend_extend]
          simp [List.filter_append, hnode]
      · rw [if_neg hnode]
        split
        next => rfl
        next => simp [List.filter_append, hnode]

/-- Drawing modules with different names one after the other draws the edges of each. -/
theorem foldl_linkImports {modules : List Module} (hnames : (modules.map (·.name)).Nodup)
    (hnew : ∀ module ∈ modules, ∀ target, ¬ graph.Edge module.name target) :
    modules.foldl linkImports graph = graph.extend (modules.flatMap (importEdges graph.names)) := by
  induction modules generalizing graph with
  | nil => simp [extend_nil]
  | cons module modules ih =>
      obtain ⟨hmodule, hrest⟩ := List.forall_mem_cons.mp hnew
      obtain ⟨hfirst, hothers⟩ := List.nodup_cons.mp hnames
      rw [List.foldl_cons, linkImports_eq hmodule, ih hothers, names_extend, extend_extend,
        List.flatMap_cons]
      -- The edges just drawn start at a name that no other module has.
      intro other hother target hedge
      rcases edge_extend.mp hedge with hold | hdrawn
      · exact hrest other hother target hold
      · have hname := (mem_importEdges.mp hdrawn).1
        exact hfirst (List.mem_map.mpr ⟨other, hother, hname.symm⟩)

/-- The undeclared imports that are nodes: all of them if the policy wants placeholders. -/
def placeholders (registry : Registry) (policy : UnresolvedPolicy) : List String :=
  match policy with
  | .drop => []
  | .placeholder => registry.unresolvedImports

theorem nodesOf_eq : nodesOf registry policy =
    registry.modules.map (fun module => ⟨module.name, false⟩) ++
      (placeholders registry policy).map (fun name => ⟨name, true⟩) := by
  cases policy <;> simp [nodesOf, placeholders]

theorem mem_placeholders_iff : name ∈ placeholders registry policy ↔
    policy = .placeholder ∧ registry.Imports name ∧ ¬ registry.Declares name := by
  cases policy <;> simp [placeholders, Registry.mem_unresolvedImports]

theorem pairwise_placeholders : (placeholders registry policy).Pairwise (· < ·) := by
  cases policy with
  | drop => exact List.Pairwise.nil
  | placeholder => exact Registry.pairwise_unresolvedImports registry

theorem names_nodesOf : (nodesOf registry policy).map (·.name) =
    registry.modules.map (·.name) ++ placeholders registry policy := by
  simp [nodesOf_eq, Function.comp_def]

theorem ofRegistry_eq : ofRegistry registry policy =
    ⟨nodesOf registry policy, registry.modules.flatMap
      (importEdges ((nodesOf registry policy).map (·.name)))⟩ := by
  unfold ofRegistry
  rw [foldl_linkImports registry.nodup_names]
  · rfl
  · simp [Edge]

theorem nodes_ofRegistry : (ofRegistry registry policy).nodes = nodesOf registry policy := by
  rw [ofRegistry_eq]

theorem names_ofRegistry : (ofRegistry registry policy).names =
    registry.modules.map (·.name) ++ placeholders registry policy := by
  rw [names, ofRegistry_eq, names_nodesOf]

/-- No placeholder has the name of a module, so all names differ. -/
theorem nodup_names_ofRegistry : (ofRegistry registry policy).names.Nodup := by
  rw [names_ofRegistry]
  have hplaceholders : (placeholders registry policy).Nodup :=
    pairwise_placeholders.imp fun hlt => hlt.ne
  refine List.nodup_append.mpr ⟨registry.nodup_names, hplaceholders, ?_⟩
  rintro declared hdeclared undeclared hundeclared rfl
  obtain ⟨module, hmodule, hname⟩ := List.mem_map.mp hdeclared
  exact (mem_placeholders_iff.mp hundeclared).2.2 ⟨module, hmodule, hname⟩

theorem edges_ofRegistry : (ofRegistry registry policy).edges =
    registry.modules.flatMap (importEdges (ofRegistry registry policy).names) := by
  rw [names, ofRegistry_eq]

/-- An edge leads from a module to each of its imports that is a node. -/
theorem edge_ofRegistry : (ofRegistry registry policy).Edge source target ↔
    (∃ module ∈ registry.modules, module.name = source ∧ target ∈ module.imports) ∧
      target ∈ (ofRegistry registry policy).names := by
  rw [Edge, edges_ofRegistry]
  simp only [List.mem_flatMap, mem_importEdges]
  constructor
  · rintro ⟨module, hmodule, hname, himport, hnode⟩
    exact ⟨⟨module, hmodule, hname, himport⟩, hnode⟩
  · rintro ⟨⟨module, hmodule, hname, himport⟩, hnode⟩
    exact ⟨module, hmodule, hname, himport, hnode⟩

theorem nodup_importEdges (names : List String) (module : Module) :
    (importEdges names module).Nodup :=
  ((nodup_eraseDups _).filter _).map fun _ _ heq => (Prod.mk.inj heq).2

theorem nodup_edges_ofRegistry : (ofRegistry registry policy).edges.Nodup := by
  rw [edges_ofRegistry]
  refine List.nodup_flatMap.mpr ⟨fun module _ => nodup_importEdges _ module, ?_⟩
  refine registry.ascending.imp fun hlt edge hfirst hsecond => hlt.ne ?_
  exact (mem_importEdges.mp hfirst).1.trans (mem_importEdges.mp hsecond).1.symm

/-- The graph of a registry is well formed, so what holds of ranks and cycles of such graphs holds
of it. -/
theorem wellFormed_ofRegistry (registry : Registry) (policy : UnresolvedPolicy) :
    (ofRegistry registry policy).WellFormed where
  nodup := nodup_names_ofRegistry
  source_mem := by
    rintro ⟨source, target⟩ hedge
    obtain ⟨⟨module, hmodule, hname, _⟩, _⟩ := edge_ofRegistry.mp hedge
    rw [names_ofRegistry]
    exact List.mem_append_left _ (List.mem_map.mpr ⟨module, hmodule, hname⟩)
  target_mem := fun _ hedge => (edge_ofRegistry.mp hedge).2

/-- In a graph with different names, the position of a name is where it stands. -/
theorem indexOf?_eq_some_iff (hnodup : graph.names.Nodup) {index : Nat} :
    graph.indexOf? name = some index ↔ graph.names[index]? = some name := by
  have hkeys : (Lookup.keys graph.names.zipIdx.reverse).Nodup := by
    rw [Lookup.keys, List.map_reverse, List.nodup_reverse, List.zipIdx_map_fst]
    exact hnodup
  rw [indexOf?, Lookup.lookup_eq_some hkeys, List.mem_reverse, List.mem_zipIdx_iff_getElem?]

/-- A placeholder is declared by no module. -/
theorem not_declares_of_isPlaceholder {node : Node} (hnode : node ∈ nodesOf registry policy)
    (hplaceholder : node.isPlaceholder = true) : ¬ registry.Declares node.name := by
  rw [nodesOf_eq] at hnode
  rcases List.mem_append.mp hnode with hdeclared | hundeclared
  · obtain ⟨module, -, rfl⟩ := List.mem_map.mp hdeclared
    cases hplaceholder
  · obtain ⟨name, hname, rfl⟩ := List.mem_map.mp hundeclared
    exact (mem_placeholders_iff.mp hname).2.2

/-- With placeholders, every import is a node. -/
theorem mem_names_of_imports (himport : registry.Imports name) :
    name ∈ (ofRegistry registry .placeholder).names := by
  rw [names_ofRegistry]
  by_cases hdeclared : registry.Declares name
  · obtain ⟨module, hmodule, hname⟩ := hdeclared
    exact List.mem_append_left _ (List.mem_map.mpr ⟨module, hmodule, hname⟩)
  · exact List.mem_append_right _ (mem_placeholders_iff.mpr ⟨rfl, himport, hdeclared⟩)

/-- The graph of a registry has the declared modules as nodes, in ascending order, and behind them
placeholders for the undeclared imports, in ascending order, if the policy wants them. Its edges are
the first occurrences of the imports of each module, in order, as far as they are nodes. So there is
one edge for each pair of a module and an import that is a node, none leaves a placeholder, none is
missing if there are placeholders, and the position of a name is that of its node. -/
theorem ofRegistry_nodes_and_edges (registry : Registry) (policy : UnresolvedPolicy) :
    let graph := ofRegistry registry policy
    (∃ undeclared : List String,
      graph.nodes = registry.modules.map (fun module => ⟨module.name, false⟩) ++
        undeclared.map (fun name => ⟨name, true⟩) ∧
      undeclared.Pairwise (· < ·) ∧
      ∀ name, name ∈ undeclared ↔
        policy = .placeholder ∧ registry.Imports name ∧ ¬ registry.Declares name) ∧
    (registry.modules.map (·.name)).Pairwise (· < ·) ∧
    graph.names.Nodup ∧
    graph.edges = registry.modules.flatMap (fun module =>
      (module.imports.eraseDups.filter (· ∈ graph.names)).map (module.name, ·)) ∧
    (∀ source target, graph.Edge source target ↔
      (∃ module ∈ registry.modules, module.name = source ∧ target ∈ module.imports) ∧
        target ∈ graph.names) ∧
    graph.edges.Nodup ∧
    (∀ node ∈ graph.nodes, node.isPlaceholder = true → ∀ target, ¬ graph.Edge node.name target) ∧
    (policy = .placeholder → ∀ module ∈ registry.modules, ∀ target ∈ module.imports,
      graph.Edge module.name target) ∧
    (∀ name index, graph.indexOf? name = some index ↔ graph.names[index]? = some name) := by
  have hnodes : (ofRegistry registry policy).nodes =
      registry.modules.map (fun module => ⟨module.name, false⟩) ++
        (placeholders registry policy).map (fun name => ⟨name, true⟩) := by
    rw [ofRegistry_eq, nodesOf_eq]
  have hascending : (registry.modules.map (·.name)).Pairwise (· < ·) :=
    List.pairwise_map.mpr registry.ascending
  refine ⟨⟨placeholders registry policy, hnodes, pairwise_placeholders, fun _ =>
    mem_placeholders_iff⟩, hascending, nodup_names_ofRegistry, edges_ofRegistry,
    fun _ _ => edge_ofRegistry, nodup_edges_ofRegistry, ?_, ?_,
    fun _ _ => indexOf?_eq_some_iff nodup_names_ofRegistry⟩
  · intro node hnode hplaceholder target hedge
    rw [ofRegistry_eq] at hnode
    obtain ⟨module, hmodule, hname, _⟩ := (edge_ofRegistry.mp hedge).1
    exact not_declares_of_isPlaceholder hnode hplaceholder ⟨module, hmodule, hname⟩
  · rintro rfl module hmodule target htarget
    exact edge_ofRegistry.mpr ⟨⟨module, hmodule, rfl, htarget⟩,
      mem_names_of_imports ⟨module, hmodule, htarget⟩⟩

end OberonImports.Graph
