import OberonImports.Proofs.Graph.Leaves
import OberonImports.Proofs.Graph.OfRegistry

/-!
# What placeholders change

Placeholders lead nowhere, so the graph without them is the graph with them restricted to the
declared modules, with the same cycles. A module may rank one higher when its undeclared imports are
drawn, and no more.
-/

namespace OberonImports.Graph

variable {registry : Registry} {policy : UnresolvedPolicy} {name : String} {module : Module}

/-- Without placeholders the nodes are the declared names. -/
theorem mem_names_drop : name ∈ (ofRegistry registry .drop).names ↔ registry.Declares name := by
  simp [names_ofRegistry, placeholders, Registry.Declares]

theorem not_edge_of_not_contains (hundeclared : registry.contains name = false) (target : String) :
    ¬ (ofRegistry registry policy).Edge name target := by
  intro hedge
  obtain ⟨⟨module, hmodule, hname, -⟩, -⟩ := edge_ofRegistry.mp hedge
  have hcontains := Registry.contains_iff.mpr ⟨module, hmodule, hname⟩
  rw [hundeclared] at hcontains
  cases hcontains

theorem nodesOf_drop (registry : Registry) : nodesOf registry .drop =
    (nodesOf registry .placeholder).filter (registry.contains ·.name) := by
  have hdeclared : ∀ module ∈ registry.modules, registry.contains module.name = true :=
    fun module hmodule => Registry.contains_iff.mpr ⟨module, hmodule, rfl⟩
  have hundeclared : ∀ name ∈ registry.unresolvedImports, registry.contains name = false := by
    intro name hname
    have hnot := (Registry.mem_unresolvedImports.mp hname).2
    exact Bool.eq_false_of_not_eq_true fun hcontains => hnot (Registry.contains_iff.mp hcontains)
  rw [nodesOf, nodesOf, List.filter_append, List.filter_eq_self.mpr, List.filter_eq_nil_iff.mpr,
    List.append_nil]
  · simpa using hundeclared
  · simpa using hdeclared

/-- The edges of a declared module to declared names. -/
theorem filter_importEdges (hmodule : module ∈ registry.modules) :
    (importEdges (ofRegistry registry .placeholder).names module).filter
        (fun edge => registry.contains edge.1 && registry.contains edge.2) =
      importEdges (ofRegistry registry .drop).names module := by
  have hcontains := Registry.contains_iff.mpr ⟨module, hmodule, rfl⟩
  simp only [importEdges, List.filter_map, List.filter_filter]
  congr 1
  apply List.filter_congr
  intro target htarget
  have hnode := mem_names_of_imports ⟨module, hmodule, List.mem_eraseDups.mp htarget⟩
  rw [Bool.eq_iff_iff]
  simp [hcontains, hnode, mem_names_drop, Registry.contains_iff]

theorem ofRegistry_drop (registry : Registry) : ofRegistry registry .drop =
    (ofRegistry registry .placeholder).restrict registry.contains := by
  have hnodes : (ofRegistry registry .drop).nodes =
      ((ofRegistry registry .placeholder).restrict registry.contains).nodes := by
    rw [restrict, nodes_ofRegistry, nodes_ofRegistry, nodesOf_drop]
  have hedges : (ofRegistry registry .drop).edges =
      ((ofRegistry registry .placeholder).restrict registry.contains).edges := by
    rw [restrict, edges_ofRegistry, edges_ofRegistry, List.filter_flatMap]
    exact List.flatMap_congr fun module hmodule => (filter_importEdges hmodule).symm
  calc ofRegistry registry .drop
      = ⟨(ofRegistry registry .drop).nodes, (ofRegistry registry .drop).edges⟩ := rfl
    _ = (ofRegistry registry .placeholder).restrict registry.contains := by rw [hnodes, hedges]

theorem trimmed_ofRegistry (registry : Registry) :
    Trimmed (ofRegistry registry .placeholder) registry.contains (ofRegistry registry .drop) :=
  ofRegistry_drop registry ▸ trimmed_restrict fun _ => not_edge_of_not_contains

/-- The graph without placeholders is the part of the graph with placeholders that the declared
modules span, with nodes and edges in the same order. Both have the same cycles, and the same edges
are broken in search of ranks. A placeholder has rank 0. A declared module has a rank in both
graphs, with placeholders the same or one more. -/
theorem unresolved_policies_agree (registry : Registry) :
    let bare := ofRegistry registry .drop
    let full := ofRegistry registry .placeholder
    bare = full.restrict registry.contains ∧
    bare.cycles = full.cycles ∧
    bare.brokenEdges = full.brokenEdges ∧
    (∀ node ∈ full.nodes, node.isPlaceholder = true → full.ranks.rank? node.name = some 0) ∧
    ∀ module ∈ registry.modules, ∃ low high, bare.ranks.rank? module.name = some low ∧
      full.ranks.rank? module.name = some high ∧ low ≤ high ∧ high ≤ low + 1 := by
  intro bare full
  have hbare : bare.WellFormed := wellFormed_ofRegistry registry .drop
  have hfull : full.WellFormed := wellFormed_ofRegistry registry .placeholder
  have htrim : Trimmed full registry.contains bare := trimmed_ofRegistry registry
  refine ⟨ofRegistry_drop registry, htrim.cycles_eq hfull hbare, htrim.brokenEdges_eq hfull hbare,
    ?_, ?_⟩
  · intro node hnode hplaceholder
    have hname : node.name ∈ full.names := List.mem_map_of_mem hnode
    have hundeclared : registry.contains node.name = false :=
      Bool.eq_false_of_not_eq_true fun hcontains =>
        not_declares_of_isPlaceholder (nodes_ofRegistry ▸ hnode) hplaceholder
          (Registry.contains_iff.mp hcontains)
    rw [rank?_ranks hfull hname, htrim.rankOf_leaf hfull hname hundeclared]
  · intro module hmodule
    have hname : module.name ∈ bare.names := mem_names_drop.mpr ⟨module, hmodule, rfl⟩
    exact ⟨bare.rankOf module.name, full.rankOf module.name, rank?_ranks hbare hname,
      rank?_ranks hfull ((htrim.mem_names _).mp hname).1, htrim.rankOf_le hfull hbare hname,
      htrim.rankOf_le_succ hfull hbare hname⟩

/-- `D` and `T` import each other. `T` also imports `F`, which imports what no module declares. -/
def besideUndeclared : Registry where
  modules := [⟨"D", ["T"], none⟩, ⟨"F", ["S"], none⟩, ⟨"T", ["D", "F"], none⟩]
  ascending := by decide

theorem ofRegistry_besideUndeclared_drop : ofRegistry besideUndeclared .drop =
    ⟨["D", "F", "T"].map (⟨·, false⟩), [("D", "T"), ("T", "D"), ("T", "F")]⟩ := by
  decide +kernel

theorem ofRegistry_besideUndeclared_placeholder : ofRegistry besideUndeclared .placeholder =
    ⟨["D", "F", "T"].map (⟨·, false⟩) ++ [⟨"S", true⟩],
      [("D", "T"), ("F", "S"), ("T", "D"), ("T", "F")]⟩ := by
  decide +kernel

/-- The modules on the cycle rank one higher when the undeclared import is drawn. -/
theorem ranks_besideUndeclared :
    let bare := ofRegistry besideUndeclared .drop
    let full := ofRegistry besideUndeclared .placeholder
    full.cycles = [["D", "T"]] ∧ full.ranks.rank? "S" = some 0 ∧
    bare.ranks.rank? "T" = some 1 ∧ full.ranks.rank? "T" = some 2 ∧
    ∃ low high, bare.ranks.rank? "D" = some low ∧ full.ranks.rank? "D" = some high ∧
      low ≤ high ∧ high ≤ low + 1 := by
  obtain ⟨-, hcycles, -, hplaceholder, hrank⟩ := unresolved_policies_agree besideUndeclared
  have hbare : (ofRegistry besideUndeclared .drop).cycles = [["D", "T"]] := by
    rw [ofRegistry_besideUndeclared_drop]
    simp +decide [cycles, components, isCyclic, hasEdge, names, successors, Search.visit,
      Search.follow, Search.start, Search.discover, Search.next, Search.finish, Search.close,
      List.lookup_cons, List.filter_cons, List.mergeSort, List.MergeSort.Internal.splitInTwo]
  have hlow : (ofRegistry besideUndeclared .drop).ranks.rank? "T" = some 1 := by
    rw [ofRegistry_besideUndeclared_drop]
    simp +decide [ranks, Ranks.ofList, Ranks.rank?, rankWalk, names, successors, RankWalk.visit,
      RankWalk.follow, RankWalk.start, RankWalk.finish, List.lookup_cons, List.mergeSort,
      List.MergeSort.Internal.splitInTwo]
  have hhigh : (ofRegistry besideUndeclared .placeholder).ranks.rank? "T" = some 2 := by
    rw [ofRegistry_besideUndeclared_placeholder]
    simp +decide [ranks, Ranks.ofList, Ranks.rank?, rankWalk, names, successors, RankWalk.visit,
      RankWalk.follow, RankWalk.start, RankWalk.finish, List.lookup_cons, List.mergeSort,
      List.MergeSort.Internal.splitInTwo]
  exact ⟨hcycles ▸ hbare, hplaceholder ⟨"S", true⟩ (by decide +kernel) rfl, hlow, hhigh,
    hrank ⟨"D", ["T"], none⟩ List.mem_cons_self⟩

end OberonImports.Graph
