import OberonImports.Proofs.Graph.BrokenEdges

/-!
# Dropping nodes that lead nowhere

A graph may lose some of the nodes that lead nowhere, with the edges to them. No cycle passes
through such a node, so the cycles stay. The two walks in search of ranks run in step: the walk of
the whole graph ranks a dropped node as soon as it comes to it, and nothing else happens there. So
both break the same edges, and a node loses at most one rank: the one at the end of its longest
chain, where a dropped node stood.
-/

namespace OberonImports.Graph

open Relation

variable {graph part : Graph} {keep : String → Bool} {source target name : String}

/-- The part of a graph that a test keeps: the nodes whose names pass and the edges between them, in
their order. -/
def restrict (graph : Graph) (keep : String → Bool) : Graph where
  nodes := graph.nodes.filter (keep ·.name)
  edges := graph.edges.filter fun edge => keep edge.1 && keep edge.2

/-- One graph is another without the nodes that fail a test, none of which leads anywhere. The edges
of each node that is left keep their order; the order of nodes does not matter. -/
structure Trimmed (graph : Graph) (keep : String → Bool) (part : Graph) : Prop where
  mem_names : ∀ name, name ∈ part.names ↔ name ∈ graph.names ∧ keep name = true
  successors : ∀ name, keep name = true →
    part.successors name = (graph.successors name).filter keep
  leaf : ∀ name, keep name = false → graph.successors name = []

theorem names_restrict : (graph.restrict keep).names = graph.names.filter keep := by
  simp [names, restrict, List.filter_map, Function.comp_def]

theorem successors_restrict (hkeep : keep name = true) :
    (graph.restrict keep).successors name = (graph.successors name).filter keep := by
  simp only [successors, restrict, List.filter_map, List.filter_filter]
  congr 1
  apply List.filter_congr
  rintro ⟨first, second⟩ _
  by_cases heq : first = name <;> simp [heq, hkeep]

/-- Restricting a graph to all but some nodes that lead nowhere. -/
theorem trimmed_restrict (hleaf : ∀ name, keep name = false → ∀ target, ¬ graph.Edge name target) :
    Trimmed graph keep (graph.restrict keep) where
  mem_names := fun name => by rw [names_restrict, List.mem_filter]
  successors := fun _ => successors_restrict
  leaf := fun name hdropped => List.eq_nil_iff_forall_not_mem.mpr fun target htarget =>
    hleaf name hdropped target (mem_successors.mp htarget)

/-! ## Cycles -/

namespace Trimmed

/-- A node with an edge is kept. -/
theorem keep_of_edge (htrim : Trimmed graph keep part) (hedge : graph.Edge source target) :
    keep source = true := by
  by_contra hdropped
  have htarget := mem_successors.mpr hedge
  rw [htrim.leaf source (Bool.eq_false_of_not_eq_true hdropped)] at htarget
  cases htarget

theorem edge_iff (htrim : Trimmed graph keep part) (hpart : part.WellFormed) :
    part.Edge source target ↔ graph.Edge source target ∧ keep target = true := by
  constructor
  · intro hedge
    have hkeep := ((htrim.mem_names source).mp (hpart.source_mem _ hedge)).2
    rw [← mem_successors, htrim.successors source hkeep, List.mem_filter] at hedge
    exact hedge.imp_left mem_successors.mp
  · rintro ⟨hedge, hkeep⟩
    rw [← mem_successors, htrim.successors source (htrim.keep_of_edge hedge), List.mem_filter]
    exact ⟨mem_successors.mpr hedge, hkeep⟩

/-- A walk to a kept node passes through kept nodes only. -/
theorem transGen_iff (htrim : Trimmed graph keep part) (hpart : part.WellFormed) :
    TransGen part.Edge source target ↔ TransGen graph.Edge source target ∧ keep target = true := by
  constructor
  · intro hwalk
    obtain ⟨middle, -, hlast⟩ := TransGen.tail'_iff.mp hwalk
    exact ⟨TransGen.mono (fun _ _ hedge => ((htrim.edge_iff hpart).mp hedge).1) _ _ hwalk,
      ((htrim.edge_iff hpart).mp hlast).2⟩
  · rintro ⟨hwalk, hkeep⟩
    induction hwalk with
    | single hedge => exact .single ((htrim.edge_iff hpart).mpr ⟨hedge, hkeep⟩)
    | tail _ hedge ih =>
        exact (ih (htrim.keep_of_edge hedge)).tail ((htrim.edge_iff hpart).mpr ⟨hedge, hkeep⟩)

/-- The cycles stay: a node on a closed walk has an edge. -/
theorem cycles_eq (htrim : Trimmed graph keep part) (hgraph : graph.WellFormed)
    (hpart : part.WellFormed) : part.cycles = graph.cycles := by
  apply cycles_congr hpart hgraph
  intro name other
  rw [htrim.transGen_iff hpart, htrim.transGen_iff hpart]
  constructor
  · rintro ⟨⟨hforth, -⟩, hback, -⟩
    exact ⟨hforth, hback⟩
  · rintro ⟨hforth, hback⟩
    obtain ⟨next, hedge, -⟩ := TransGen.head'_iff.mp hforth
    obtain ⟨previous, hreturn, -⟩ := TransGen.head'_iff.mp hback
    exact ⟨⟨hforth, htrim.keep_of_edge hreturn⟩, hback, htrim.keep_of_edge hedge⟩

end Trimmed

/-! ## The two walks in search of ranks -/

namespace RankWalk

open Lookup

variable {fresh partFresh targets roots : List String} {deepest partDeepest : Option Nat}
  {walk partWalk : RankWalk}

/-- The two walks have broken the same edges and ranked the same kept nodes. -/
structure Agree (keep : String → Bool) (walk partWalk : RankWalk) : Prop where
  broken : partWalk.broken = walk.broken
  ranked : ∀ name, keep name = true → (name ∈ partWalk.ranked ↔ name ∈ walk.ranked)

/-- The two walks are on the same path, and no dropped node is on it. -/
structure SamePath (graph : Graph) (keep : String → Bool) (fresh partFresh : List String) :
    Prop where
  nodup : fresh.Nodup
  nodup_part : partFresh.Nodup
  mem_iff : ∀ name, keep name = true → (name ∈ partFresh ↔ name ∈ fresh)
  dropped : ∀ name ∈ graph.names, keep name = false → name ∈ fresh

theorem SamePath.erase (hpath : SamePath graph keep fresh partFresh) (hkeep : keep target = true) :
    SamePath graph keep (fresh.erase target) (partFresh.erase target) where
  nodup := hpath.nodup.erase target
  nodup_part := hpath.nodup_part.erase target
  mem_iff := fun name hname => by
    rw [hpath.nodup.mem_erase_iff, hpath.nodup_part.mem_erase_iff, hpath.mem_iff name hname]
  dropped := by
    intro name hname hdropped
    have hne : name ≠ target := fun heq => by simp [heq, hkeep] at hdropped
    exact (List.mem_erase_of_ne hne).mpr (hpath.dropped name hname hdropped)

/-- A kept node that the walk of the whole graph has ranked is ranked by the other too. -/
theorem Agree.exists_lookup {rank : Nat} (hagree : Agree keep walk partWalk)
    (hkeep : keep name = true) (hlookup : walk.ranks.lookup name = some rank) :
    ∃ partRank, partWalk.ranks.lookup name = some partRank :=
  Lookup.exists_lookup ((hagree.ranked name hkeep).mpr (mem_keys_of_lookup hlookup))

/-- A kept node that the walk of the whole graph has not ranked is not ranked by the other. -/
theorem Agree.lookup_eq_none (hagree : Agree keep walk partWalk) (hkeep : keep name = true)
    (hlookup : walk.ranks.lookup name = none) : partWalk.ranks.lookup name = none :=
  Lookup.lookup_eq_none.mpr fun hmem =>
    Lookup.lookup_eq_none.mp hlookup ((hagree.ranked name hkeep).mp hmem)

/-- Both walks rank a kept node. -/
theorem Agree.finish (hagree : Agree keep walk partWalk) :
    Agree keep (walk.finish target deepest) (partWalk.finish target partDeepest) where
  broken := hagree.broken
  ranked := fun name hname => by
    simp [hagree.ranked name hname]

/-- The walk of the whole graph ranks a dropped node. -/
theorem Agree.finish_dropped (hagree : Agree keep walk partWalk) (hdropped : keep target = false) :
    Agree keep (walk.finish target deepest) partWalk where
  broken := hagree.broken
  ranked := by
    intro name hname
    have hne : name ≠ target := fun heq => by simp [← heq, hname] at hdropped
    simp [hne, hagree.ranked name hname]

/-- Both walks break an edge. -/
theorem Agree.cons_broken (hagree : Agree keep walk partWalk) (edge : String × String) :
    Agree keep { walk with broken := edge :: walk.broken }
      { partWalk with broken := edge :: partWalk.broken } where
  broken := congrArg (edge :: ·) hagree.broken
  ranked := hagree.ranked

/-- Two walks on the same path that follow the same edges, but for those to dropped nodes, agree
again behind them. -/
theorem agree_follow (htrim : Trimmed graph keep part) (hgraph : graph.WellFormed)
    (hpath : SamePath graph keep fresh partFresh)
    (htargets : ∀ target ∈ targets, target ∈ graph.names) (hagree : Agree keep walk partWalk) :
    Agree keep (follow graph fresh source targets deepest walk).2
      (follow part partFresh source (targets.filter keep) partDeepest partWalk).2 := by
  fun_induction follow graph fresh source targets deepest walk
    generalizing partFresh partDeepest partWalk with
  | case1 => simpa [follow_nil] using hagree
  | case2 fresh source target targets deepest walk rank hlookup ih =>
      obtain ⟨htarget, hrest⟩ := List.forall_mem_cons.mp htargets
      cases hkeep : keep target with
      | false => simpa [hkeep] using ih hpath hrest hagree
      | true =>
          obtain ⟨partRank, hpartLookup⟩ := hagree.exists_lookup hkeep hlookup
          rw [List.filter_cons_of_pos hkeep, follow_of_ranked hpartLookup]
          exact ih hpath hrest hagree
  | case3 fresh source target targets deepest walk hlookup hfresh behind inner hfollow ihInner
      ihRest =>
      obtain ⟨htarget, hrest⟩ := List.forall_mem_cons.mp htargets
      cases hkeep : keep target with
      | false =>
          -- A dropped node has no edges, so the walk leaves it at once.
          rw [htrim.leaf target hkeep, follow_nil] at hfollow
          obtain ⟨rfl, rfl⟩ := Prod.mk.inj hfollow
          rw [List.filter_cons_of_neg (by simp [hkeep])]
          exact ihRest hpath hrest (hagree.finish_dropped hkeep)
      | true =>
          have hinner : Agree keep _ (follow part (partFresh.erase target) target
              ((graph.successors target).filter keep) none partWalk).2 :=
            ihInner (hpath.erase hkeep) (fun _ => hgraph.mem_names_of_mem_successors) hagree
          rw [← htrim.successors target hkeep, hfollow] at hinner
          have hpartFresh : target ∈ partFresh := (hpath.mem_iff target hkeep).mpr hfresh
          rw [List.filter_cons_of_pos hkeep,
            follow_of_new (hagree.lookup_eq_none hkeep hlookup) hpartFresh rfl]
          exact ihRest hpath hrest hinner.finish
  | case4 fresh source target targets deepest walk hlookup hopen ih =>
      obtain ⟨htarget, hrest⟩ := List.forall_mem_cons.mp htargets
      cases hkeep : keep target with
      | false => exact absurd (hpath.dropped target htarget hkeep) hopen
      | true =>
          have hpartOpen : target ∉ partFresh :=
            fun hmem => hopen ((hpath.mem_iff target hkeep).mp hmem)
          rw [List.filter_cons_of_pos hkeep,
            follow_of_open (hagree.lookup_eq_none hkeep hlookup) hpartOpen]
          exact ih hpath hrest (hagree.cons_broken _)

/-- Visiting a node in both walks if it is kept, else in the walk of the whole graph only. -/
theorem agree_visit (htrim : Trimmed graph keep part) (hgraph : graph.WellFormed)
    (hpath : SamePath graph keep graph.names part.names) (hagree : Agree keep walk partWalk)
    (root : String) :
    Agree keep (visit graph walk root)
      (if keep root then visit part partWalk root else partWalk) := by
  cases hlookup : walk.ranks.lookup root with
  | some rank =>
      have hvisit : visit graph walk root = walk := by simp [visit, hlookup]
      rw [hvisit]
      split
      next hkeep =>
        obtain ⟨partRank, hpartLookup⟩ := hagree.exists_lookup hkeep hlookup
        simpa [visit, hpartLookup] using hagree
      next => exact hagree
  | none =>
      simp only [visit, hlookup]
      split
      next hkeep =>
        have hsuccessors : ∀ name ∈ graph.successors root, name ∈ graph.names :=
          fun _ => hgraph.mem_names_of_mem_successors
        rw [hagree.lookup_eq_none hkeep hlookup, htrim.successors root hkeep]
        exact (agree_follow htrim hgraph (hpath.erase hkeep) hsuccessors hagree).finish
      next hdropped =>
        rw [htrim.leaf root (Bool.eq_false_of_not_eq_true hdropped), follow_nil]
        exact hagree.finish_dropped (Bool.eq_false_of_not_eq_true hdropped)

/-- The walk of the part visits the kept ones of the roots. -/
theorem agree_foldl_visit (htrim : Trimmed graph keep part) (hgraph : graph.WellFormed)
    (hpath : SamePath graph keep graph.names part.names) (hagree : Agree keep walk partWalk) :
    Agree keep (roots.foldl (visit graph) walk)
      ((roots.filter keep).foldl (visit part) partWalk) := by
  rw [List.foldl_filter]
  induction roots generalizing walk partWalk with
  | nil => exact hagree
  | cons root roots ih => exact ih (agree_visit htrim hgraph hpath hagree root)

end RankWalk

/-- Ranks in two graphs with the same broken edges. If each edge of the first is an edge of the
second or leads to a rank below some bound, no rank is higher by more than the bound. -/
theorem rankOf_le_add {first second : Graph} {slack : Nat} (hfirst : first.WellFormed)
    (hsecond : second.WellFormed) (hbroken : first.brokenEdges = second.brokenEdges)
    (hedges : ∀ source target, first.Edge source target →
      second.Edge source target ∨ first.rankOf target < slack)
    (hname : name ∈ first.names) (hother : name ∈ second.names) :
    first.rankOf name ≤ second.rankOf name + slack := by
  -- By the rank in the first graph: an edge that is not broken leads to a lower one.
  induction hrank : first.rankOf name using Nat.strong_induction_on generalizing name with
  | _ height ih =>
      cases height with
      | zero => exact Nat.zero_le _
      | succ height =>
          obtain ⟨target, hedge, hbehind⟩ := exists_edge_of_rankOf_eq_succ hfirst hname hrank
          rcases hedges name target hedge with hsame | hlow
          · have hlt := behind_lt_rankOf hsecond hsame
            have hle : behind first.brokenEdges first.rankOf name target ≤
                behind first.brokenEdges second.rankOf name target + slack := by
              refine behind_le_behind fun hkept => ?_
              rw [behind_of_kept hkept] at hbehind
              exact ih (first.rankOf target) (by omega) (hfirst.target_mem _ hedge)
                (hsecond.target_mem _ hsame) rfl
            rw [hbroken] at hle hbehind
            omega
          · have hle : behind first.brokenEdges first.rankOf name target ≤ first.rankOf target :=
              behind_le
            omega

namespace Trimmed

open RankWalk

theorem samePath (htrim : Trimmed graph keep part) (hgraph : graph.WellFormed)
    (hpart : part.WellFormed) : SamePath graph keep graph.names part.names where
  nodup := hgraph.nodup
  nodup_part := hpart.nodup
  mem_iff := fun name hkeep => by simp [htrim.mem_names, hkeep]
  dropped := fun _ hname _ => hname

/-- The walk of the part starts from the kept nodes, in the same order. -/
theorem mergeSort_names (htrim : Trimmed graph keep part) (hgraph : graph.WellFormed)
    (hpart : part.WellFormed) :
    part.names.mergeSort (· ≤ ·) = (graph.names.mergeSort (· ≤ ·)).filter keep := by
  apply (pairwise_mergeSort_of_nodup hpart.nodup).eq_of_mem_iff
    ((pairwise_mergeSort_of_nodup hgraph.nodup).filter keep)
  simp [htrim.mem_names]

theorem brokenEdges_eq (htrim : Trimmed graph keep part) (hgraph : graph.WellFormed)
    (hpart : part.WellFormed) : part.brokenEdges = graph.brokenEdges := by
  have hstart : Agree keep start start := ⟨rfl, fun _ _ => Iff.rfl⟩
  have hagree : Agree keep graph.rankWalk part.rankWalk := by
    rw [rankWalk, rankWalk, htrim.mergeSort_names hgraph hpart]
    exact agree_foldl_visit htrim hgraph (htrim.samePath hgraph hpart) hstart
  rw [brokenEdges, brokenEdges, hagree.broken]

/-- A dropped node has rank 0. -/
theorem rankOf_leaf (htrim : Trimmed graph keep part) (hgraph : graph.WellFormed)
    (hname : name ∈ graph.names) (hdropped : keep name = false) : graph.rankOf name = 0 := by
  rw [rankOf_eq hgraph hname, rankOver, htrim.leaf name hdropped]
  rfl

/-- No rank is higher in the part. -/
theorem rankOf_le (htrim : Trimmed graph keep part) (hgraph : graph.WellFormed)
    (hpart : part.WellFormed) (hname : name ∈ part.names) :
    part.rankOf name ≤ graph.rankOf name := by
  have hwhole : name ∈ graph.names := ((htrim.mem_names name).mp hname).1
  have hedges : ∀ source target, part.Edge source target →
      graph.Edge source target ∨ part.rankOf target < 0 :=
    fun _ _ hedge => .inl ((htrim.edge_iff hpart).mp hedge).1
  exact rankOf_le_add hpart hgraph (htrim.brokenEdges_eq hgraph hpart) hedges hname hwhole

/-- A node of the part has lost at most one rank. -/
theorem rankOf_le_succ (htrim : Trimmed graph keep part) (hgraph : graph.WellFormed)
    (hpart : part.WellFormed) (hname : name ∈ part.names) :
    graph.rankOf name ≤ part.rankOf name + 1 := by
  have hwhole : name ∈ graph.names := ((htrim.mem_names name).mp hname).1
  refine rankOf_le_add hgraph hpart (htrim.brokenEdges_eq hgraph hpart).symm ?_ hwhole hname
  intro source target hedge
  cases hkeep : keep target with
  | true => exact .inl ((htrim.edge_iff hpart).mpr ⟨hedge, hkeep⟩)
  | false =>
      have hleaf := htrim.rankOf_leaf hgraph (hgraph.target_mem _ hedge) hkeep
      exact .inr (hleaf ▸ Nat.one_pos)

end Trimmed

end OberonImports.Graph
