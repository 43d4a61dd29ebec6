import Mathlib.Data.List.Sort
import OberonImports.Proofs.Ascending
import OberonImports.Proofs.Graph.Search

/-!
# Cycles as classes of names on closed walks

The search ends with an empty stack, so each node is in one class, and the classes are those of
nodes that reach each other. A class holds a cycle if its nodes are on closed walks. Sorting the
classes that do makes each list, and the list of lists, strictly ascending.
-/

namespace OberonImports.Graph

open Relation

variable {graph : Graph} {name other : String} {members : List String}

/-! ## Components -/

theorem sound_components (hgraph : graph.WellFormed) :
    Search.Sound graph (graph.names.foldl (Search.visit graph) .start) :=
  (Search.sound_foldl_visit hgraph graph.names .start rfl).1

theorem exists_component (hgraph : graph.WellFormed) (hname : name ∈ graph.names) :
    ∃ members ∈ graph.components, name ∈ members := by
  have hclassified := (Search.sound_foldl_visit hgraph graph.names .start rfl).2.2.1
  exact List.mem_flatten.mp (hclassified name hname)

theorem mem_component_iff (hgraph : graph.WellFormed) (hmembers : members ∈ graph.components)
    (hname : name ∈ members) :
    other ∈ members ↔ graph.Reaches name other ∧ graph.Reaches other name :=
  (sound_components hgraph).mem_class members hmembers name hname other

theorem component_ne_nil (hgraph : graph.WellFormed) (hmembers : members ∈ graph.components) :
    members ≠ [] :=
  (sound_components hgraph).class_ne_nil members hmembers

theorem nodup_components (hgraph : graph.WellFormed) : graph.components.flatten.Nodup :=
  (List.nodup_append.mp (sound_components hgraph).nodup_append).1

/-- A component holds a cycle if a closed walk passes through one of its nodes. -/
theorem isCyclic_iff (hgraph : graph.WellFormed) (hmembers : members ∈ graph.components)
    (hname : name ∈ members) : graph.isCyclic members = true ↔ graph.OnCycle name := by
  have hiff : ∀ other, other ∈ members ↔ graph.Reaches name other ∧ graph.Reaches other name :=
    fun _ => mem_component_iff hgraph hmembers hname
  match members with
  | [] => cases hname
  | [only] =>
      obtain rfl := List.mem_singleton.mp hname
      simp only [isCyclic, hasEdge, List.contains_iff_mem]
      constructor
      · exact fun hedge => TransGen.single hedge
      · intro hcycle
        obtain ⟨next, hedge, hback⟩ := TransGen.head'_iff.mp hcycle
        obtain rfl := List.mem_singleton.mp ((hiff next).mpr ⟨ReflTransGen.single hedge, hback⟩)
        exact hedge
  | first :: second :: rest =>
      have hnodup := (List.nodup_flatten.mp (nodup_components hgraph)).1 _ hmembers
      -- A walk to another node of the class and back is closed.
      have hother : ∃ other ∈ first :: second :: rest, name ≠ other := by
        by_cases heq : name = first
        · refine ⟨second, by simp, fun hsame => ?_⟩
          exact (List.nodup_cons.mp hnodup).1 (heq ▸ hsame ▸ List.mem_cons_self)
        · exact ⟨first, List.mem_cons_self, heq⟩
      obtain ⟨other, hmem, hne⟩ := hother
      obtain ⟨hforth, hback⟩ := (hiff other).mp hmem
      simp only [isCyclic, true_iff]
      exact (hforth.transGen_of_ne hne).trans_left hback

/-! ## The lists of names -/

theorem mem_cycles {cycle : List String} :
    cycle ∈ graph.cycles ↔ ∃ members ∈ graph.components, graph.isCyclic members = true ∧
      members.mergeSort (· ≤ ·) = cycle := by
  simp only [cycles, List.mem_mergeSort, List.mem_map, List.mem_filter, and_assoc]

/-- Two names share a cycle list if walks of at least one edge lead from each to the other. -/
theorem exists_mem_cycles_iff (hgraph : graph.WellFormed) :
    (∃ cycle ∈ graph.cycles, name ∈ cycle ∧ other ∈ cycle) ↔
      TransGen graph.Edge name other ∧ TransGen graph.Edge other name := by
  constructor
  · rintro ⟨cycle, hcycle, hname, hother⟩
    obtain ⟨members, hmembers, hcyclic, rfl⟩ := mem_cycles.mp hcycle
    rw [List.mem_mergeSort] at hname hother
    obtain ⟨hforth, hback⟩ := (mem_component_iff hgraph hmembers hname).mp hother
    have hnameCycle := (isCyclic_iff hgraph hmembers hname).mp hcyclic
    have hotherCycle := (isCyclic_iff hgraph hmembers hother).mp hcyclic
    exact ⟨hnameCycle.trans_left hforth, hotherCycle.trans_left hback⟩
  · rintro ⟨hforth, hback⟩
    obtain ⟨next, hedge, -⟩ := TransGen.head'_iff.mp hforth
    obtain ⟨members, hmembers, hname⟩ := exists_component hgraph (hgraph.source_mem _ hedge)
    have hother := (mem_component_iff hgraph hmembers hname).mpr
      ⟨hforth.to_reflTransGen, hback.to_reflTransGen⟩
    have hcyclic := (isCyclic_iff hgraph hmembers hname).mpr (hforth.trans hback)
    exact ⟨_, mem_cycles.mpr ⟨members, hmembers, hcyclic, rfl⟩, List.mem_mergeSort.mpr hname,
      List.mem_mergeSort.mpr hother⟩

theorem exists_mem_cycles_iff_onCycle (hgraph : graph.WellFormed) :
    (∃ cycle ∈ graph.cycles, name ∈ cycle) ↔ graph.OnCycle name := by
  have hiff : (∃ cycle ∈ graph.cycles, name ∈ cycle ∧ name ∈ cycle) ↔ _ :=
    exists_mem_cycles_iff hgraph
  simpa only [and_self, OnCycle] using hiff

theorem mem_cycle_iff (hgraph : graph.WellFormed) {cycle : List String}
    (hcycle : cycle ∈ graph.cycles) (hname : name ∈ cycle) :
    other ∈ cycle ↔ graph.Reaches name other ∧ graph.Reaches other name := by
  obtain ⟨members, hmembers, -, rfl⟩ := mem_cycles.mp hcycle
  rw [List.mem_mergeSort] at hname ⊢
  exact mem_component_iff hgraph hmembers hname

theorem cycle_ne_nil (hgraph : graph.WellFormed) : [] ∉ graph.cycles := by
  intro hnil
  obtain ⟨members, hmembers, -, hsorted⟩ := mem_cycles.mp hnil
  have hperm := List.mergeSort_perm members (· ≤ ·)
  rw [hsorted] at hperm
  exact component_ne_nil hgraph hmembers hperm.symm.eq_nil

theorem exists_mem_cycle (hgraph : graph.WellFormed) {cycle : List String}
    (hcycle : cycle ∈ graph.cycles) : ∃ name, name ∈ cycle :=
  List.exists_mem_of_ne_nil cycle fun heq => cycle_ne_nil hgraph (heq ▸ hcycle)

theorem pairwise_cycle (hgraph : graph.WellFormed) {cycle : List String}
    (hcycle : cycle ∈ graph.cycles) : cycle.Pairwise (· < ·) := by
  obtain ⟨members, hmembers, -, rfl⟩ := mem_cycles.mp hcycle
  exact pairwise_mergeSort_of_nodup ((List.nodup_flatten.mp (nodup_components hgraph)).1 _ hmembers)

theorem disjoint_cycles (hgraph : graph.WellFormed) : graph.cycles.Pairwise List.Disjoint := by
  have hclasses := (List.nodup_flatten.mp (nodup_components hgraph)).2
  have hsorted : ((graph.components.filter graph.isCyclic).map (·.mergeSort (· ≤ ·))).Pairwise
      List.Disjoint := by
    refine List.pairwise_map.mpr ((hclasses.filter _).imp fun hdisjoint name hfirst hsecond => ?_)
    exact hdisjoint (List.mem_mergeSort.mp hfirst) (List.mem_mergeSort.mp hsecond)
  exact (List.mergeSort_perm _ _).symm.pairwise hsorted
    fun hdisjoint => List.disjoint_symm hdisjoint

theorem namesLe_iff {names others : List String} :
    namesLe names others = true ↔ names ≤ others := by
  induction names generalizing others with
  | nil => simp [namesLe, ← not_lt]
  | cons first names ih =>
      cases others with
      | nil => simp [namesLe, ← not_lt]
      | cons second others =>
          rw [le_iff_lt_or_eq, List.cons_lt_cons_iff, List.cons.injEq]
          unfold namesLe
          split
          next heq => simp [heq, ih, le_iff_lt_or_eq]
          next hne => simp [hne]

theorem pairwise_cycles (hgraph : graph.WellFormed) : graph.cycles.Pairwise (· < ·) := by
  have hsorted : graph.cycles.Pairwise (namesLe · ·) := by
    apply List.pairwise_mergeSort
    · simp only [namesLe_iff]
      exact fun _ _ _ => le_trans
    · simp only [Bool.or_eq_true, namesLe_iff]
      exact le_total
  refine (hsorted.and (disjoint_cycles hgraph)).imp_of_mem fun hcycle _ ⟨hle, hdisjoint⟩ => ?_
  apply lt_of_le_of_ne (namesLe_iff.mp hle)
  -- Disjoint lists differ, unless both are empty.
  rintro rfl
  obtain ⟨name, hname⟩ := exists_mem_cycle hgraph hcycle
  exact hdisjoint hname hname

/-- Which other names a list holds, read off one of its names. -/
theorem mem_cycle_iff_transGen (hgraph : graph.WellFormed) {cycle : List String}
    (hcycle : cycle ∈ graph.cycles) (hname : name ∈ cycle) :
    other ∈ cycle ↔ TransGen graph.Edge name other ∧ TransGen graph.Edge other name := by
  have hclosed := (exists_mem_cycles_iff_onCycle hgraph).mp ⟨cycle, hcycle, hname⟩
  rw [mem_cycle_iff hgraph hcycle hname]
  constructor
  · exact fun ⟨hforth, hback⟩ => ⟨hclosed.trans_left hforth, hclosed.trans_right hback⟩
  · exact fun ⟨hforth, hback⟩ => ⟨hforth.to_reflTransGen, hback.to_reflTransGen⟩

/-- A list of one graph is a list of every graph in which the same names lie on common closed
walks. -/
theorem mem_cycles_of_same {first second : Graph} (hfirst : first.WellFormed)
    (hsecond : second.WellFormed)
    (hsame : ∀ name other,
      TransGen first.Edge name other ∧ TransGen first.Edge other name ↔
        TransGen second.Edge name other ∧ TransGen second.Edge other name)
    {cycle : List String} (hcycle : cycle ∈ first.cycles) : cycle ∈ second.cycles := by
  obtain ⟨name, hname⟩ := exists_mem_cycle hfirst hcycle
  have hclosed := (mem_cycle_iff_transGen hfirst hcycle hname).mp hname
  obtain ⟨same, hmem, hin, -⟩ := (exists_mem_cycles_iff hsecond).mpr ((hsame name name).mp hclosed)
  have hmembers : ∀ other, other ∈ cycle ↔ other ∈ same := fun other => by
    rw [mem_cycle_iff_transGen hfirst hcycle hname, hsame,
      mem_cycle_iff_transGen hsecond hmem hin]
  have heq : cycle = same :=
    (pairwise_cycle hfirst hcycle).eq_of_mem_iff (pairwise_cycle hsecond hmem) hmembers
  exact heq ▸ hmem

/-- Graphs in which the same names lie on common closed walks have the same cycles. -/
theorem cycles_congr {first second : Graph} (hfirst : first.WellFormed)
    (hsecond : second.WellFormed)
    (hsame : ∀ name other,
      TransGen first.Edge name other ∧ TransGen first.Edge other name ↔
        TransGen second.Edge name other ∧ TransGen second.Edge other name) :
    first.cycles = second.cycles := by
  refine (pairwise_cycles hfirst).eq_of_mem_iff (pairwise_cycles hsecond) fun cycle => ⟨?_, ?_⟩
  · exact mem_cycles_of_same hfirst hsecond hsame
  · exact mem_cycles_of_same hsecond hfirst fun name other => (hsame name other).symm

/-- The import cycles are the classes of names on closed walks. A name is in a list if a closed walk
of at least one edge passes through it; two names share a list if they reach each other. The lists
have no name in common, each ascends strictly, and so does the list of lists. -/
theorem cycles_eq_classes_of_closed_walks (hgraph : graph.WellFormed) :
    (∀ name, (∃ cycle ∈ graph.cycles, name ∈ cycle) ↔ graph.OnCycle name) ∧
    (∀ name other, name ≠ other →
      ((∃ cycle ∈ graph.cycles, name ∈ cycle ∧ other ∈ cycle) ↔
        graph.Reaches name other ∧ graph.Reaches other name)) ∧
    [] ∉ graph.cycles ∧
    graph.cycles.Pairwise List.Disjoint ∧
    (∀ cycle ∈ graph.cycles, cycle.Nodup ∧ cycle.Pairwise (· < ·)) ∧
    graph.cycles.Pairwise (· < ·) := by
  refine ⟨fun name => exists_mem_cycles_iff_onCycle hgraph, ?_, cycle_ne_nil hgraph,
    disjoint_cycles hgraph, ?_, pairwise_cycles hgraph⟩
  · intro name other hne
    rw [exists_mem_cycles_iff hgraph]
    constructor
    · exact fun ⟨hforth, hback⟩ => ⟨hforth.to_reflTransGen, hback.to_reflTransGen⟩
    · exact fun ⟨hforth, hback⟩ => ⟨hforth.transGen_of_ne hne, hback.transGen_of_ne hne.symm⟩
  · intro cycle hcycle
    have hpairwise := pairwise_cycle hgraph hcycle
    exact ⟨hpairwise.imp fun hlt => hlt.ne, hpairwise⟩

/-- A cycle of two modules, a module that imports itself, and one module on no cycle. -/
def twoCycles : Graph where
  nodes := ["T", "S", "M", "F"].map (⟨·, false⟩)
  edges := [("M", "T"), ("M", "T"), ("T", "F"), ("F", "S"),
    ("F", "T"), ("S", "S"), ("F", "T")]

theorem cycles_twoCycles : twoCycles.WellFormed ∧
    twoCycles.cycles = [["F", "T"], ["S"]] ∧ twoCycles.OnCycle "S" ∧
    ¬ twoCycles.OnCycle "M" ∧ twoCycles.Reaches "F" "T" ∧
    ¬ (twoCycles.Reaches "F" "S" ∧ twoCycles.Reaches "S" "F") := by
  have hgraph : twoCycles.WellFormed := ⟨by decide, by decide, by decide⟩
  have hcycles : twoCycles.cycles = [["F", "T"], ["S"]] := by
    simp +decide [twoCycles, cycles, components, isCyclic, hasEdge, names, successors, Search.visit,
      Search.follow, Search.start, Search.discover, Search.next, Search.finish, Search.close,
      List.lookup_cons, List.filter_cons, namesLe, List.mergeSort,
      List.MergeSort.Internal.splitInTwo]
  obtain ⟨honCycle, hshared, _⟩ := cycles_eq_classes_of_closed_walks hgraph
  rw [hcycles] at honCycle hshared
  refine ⟨hgraph, hcycles, (honCycle "S").mp (by decide),
    fun hmain => absurd ((honCycle "M").mpr hmain) (by decide),
    ((hshared "F" "T" (by decide)).mp (by decide)).1,
    fun hboth => absurd ((hshared "F" "S" (by decide)).mpr hboth) (by decide)⟩

end OberonImports.Graph
