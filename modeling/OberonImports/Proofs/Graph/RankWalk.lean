import OberonImports.Proofs.Graph.Settled

/-!
# The walk in search of ranks

The walk keeps its ranks settled. While it follows the edges of a node, the nodes outside `fresh`
are on the current path, all of them lead to that node, and none of them is ranked. So an edge that
is broken closes a cycle, and what is known of the ranked nodes stays true.
-/

namespace OberonImports.Graph.RankWalk

open Lookup

variable {graph : Graph} {fresh targets : List String} {source target name : String}
  {deepest behind : Option Nat} {walk inner : RankWalk}

/-- The nodes with ranks, newest first. -/
def ranked (walk : RankWalk) : List String := keys walk.ranks

@[simp]
theorem ranked_finish : (walk.finish name deepest).ranked = name :: walk.ranked := rfl

theorem follow_nil : follow graph fresh source [] deepest walk = (deepest, walk) := by
  rw [follow]

theorem follow_of_ranked {rank : Nat} (hlookup : walk.ranks.lookup target = some rank) :
    follow graph fresh source (target :: targets) deepest walk =
      follow graph fresh source targets (max deepest (some rank)) walk := by
  rw [follow, hlookup]

theorem follow_of_new (hlookup : walk.ranks.lookup target = none) (hfresh : target ∈ fresh)
    (hinner : follow graph (fresh.erase target) target (graph.successors target) none walk =
      (behind, inner)) :
    follow graph fresh source (target :: targets) deepest walk =
      follow graph fresh source targets (max deepest (some (behind.elim 0 (· + 1))))
        (inner.finish target behind) := by
  rw [follow, hlookup]
  simp only [hfresh, hinner, dite_true]

theorem follow_of_open (hlookup : walk.ranks.lookup target = none) (hopen : target ∉ fresh) :
    follow graph fresh source (target :: targets) deepest walk =
      follow graph fresh source targets (max deepest (some 0))
        { walk with broken := (source, target) :: walk.broken } := by
  rw [follow, hlookup]
  simp only [hopen, dite_false]

/-- The names outside `fresh` are on a path that ends at `source`. -/
structure PathTo (graph : Graph) (fresh : List String) (source : String) : Prop where
  nodup : fresh.Nodup
  not_fresh : source ∉ fresh
  reaches : ∀ name ∈ graph.names, name ∉ fresh → graph.Reaches name source

/-- What holds between any two steps of the walk. -/
structure Sound (graph : Graph) (fresh : List String) (walk : RankWalk) : Prop where
  settled : Settled graph walk.broken walk.ranks
  ranked_fresh : ∀ name ∈ walk.ranked, name ∈ fresh
  broken_edge : ∀ edge ∈ walk.broken, graph.Edge edge.1 edge.2
  broken_back : ∀ edge ∈ walk.broken, graph.Reaches edge.2 edge.1
  broken_source : ∀ edge ∈ walk.broken, edge.1 ∈ walk.ranked ∨ edge.1 ∉ fresh

/-- What an edge to a target adds at the end of a walk: nothing if the target is on the path. -/
def added (fresh : List String) (walk : RankWalk) (target : String) : Nat :=
  if target ∈ fresh then rankIn walk.ranks target else 0

/-- What following the edges of `source` to the `targets` has done to a walk. -/
structure Followed (graph : Graph) (fresh : List String) (source : String) (targets : List String)
    (deepest : Option Nat) (walk : RankWalk) (result : Option Nat × RankWalk) : Prop where
  sound : Sound graph fresh result.2
  ranks_suffix : walk.ranks <:+ result.2.ranks
  broken_subset : walk.broken ⊆ result.2.broken
  broken_new : ∀ edge ∈ result.2.broken, edge ∈ walk.broken ∨
    (edge.1 = source ∧ edge.2 ∉ fresh) ∨ (edge.1 ∈ fresh ∧ edge.1 ∉ walk.ranked)
  target_ranked : ∀ target ∈ targets, target ∈ fresh → target ∈ result.2.ranked
  target_broken : ∀ target ∈ targets, target ∉ fresh → (source, target) ∈ result.2.broken
  deepest_eq : result.1 = max deepest (targets.map (added fresh result.2)).max?

theorem PathTo.erase (hpath : PathTo graph fresh source) (hedge : graph.Edge source target) :
    PathTo graph (fresh.erase target) target where
  nodup := hpath.nodup.erase target
  not_fresh := hpath.nodup.not_mem_erase
  reaches := by
    intro name hname hnot
    by_cases heq : name = target
    · exact heq ▸ Reaches.refl
    · have hopen : name ∉ fresh := fun hmem => hnot ((List.mem_erase_of_ne heq).mpr hmem)
      exact (hpath.reaches name hname hopen).trans hedge.reaches

theorem PathTo.root (hgraph : graph.WellFormed) :
    PathTo graph (graph.names.erase source) source where
  nodup := hgraph.nodup.erase source
  not_fresh := hgraph.nodup.not_mem_erase
  reaches := by
    intro name hname hnot
    by_cases heq : name = source
    · exact heq ▸ Reaches.refl
    · exact absurd ((List.mem_erase_of_ne heq).mpr hname) hnot

theorem Sound.start : Sound graph fresh start where
  settled := trivial
  ranked_fresh := by simp [ranked, RankWalk.start]
  broken_edge := by simp [RankWalk.start]
  broken_back := by simp [RankWalk.start]
  broken_source := by simp [RankWalk.start]

/-- Taking a node that is not ranked onto the path. -/
theorem Sound.erase (hsound : Sound graph fresh walk) (hnew : target ∉ walk.ranked) :
    Sound graph (fresh.erase target) walk where
  settled := hsound.settled
  ranked_fresh := by
    intro name hname
    have hne : name ≠ target := fun heq => hnew (heq ▸ hname)
    exact (List.mem_erase_of_ne hne).mpr (hsound.ranked_fresh name hname)
  broken_edge := hsound.broken_edge
  broken_back := hsound.broken_back
  broken_source := fun edge hedge =>
    (hsound.broken_source edge hedge).imp_right fun hnot hmem => hnot (List.mem_of_mem_erase hmem)

/-- An edge back into the path is broken. -/
theorem Sound.cons_broken (hsound : Sound graph fresh walk) (hpath : PathTo graph fresh source)
    (hedge : graph.Edge source target) (hback : graph.Reaches target source) :
    Sound graph fresh { walk with broken := (source, target) :: walk.broken } where
  settled := by
    apply hsound.settled.congr
    intro edge hranked
    -- The source is on the path, so it has no rank yet.
    have hne : edge ≠ (source, target) := by
      rintro rfl
      exact hpath.not_fresh (hsound.ranked_fresh source hranked)
    simp [hne]
  ranked_fresh := hsound.ranked_fresh
  broken_edge := List.forall_mem_cons.mpr ⟨hedge, hsound.broken_edge⟩
  broken_back := List.forall_mem_cons.mpr ⟨hback, hsound.broken_back⟩
  broken_source := List.forall_mem_cons.mpr ⟨.inr hpath.not_fresh, hsound.broken_source⟩

/-- When all edges of a node have been followed, its broken edges are those that lead into the
path. -/
theorem Followed.broken_iff (hnodup : fresh.Nodup) (htarget : target ∈ fresh)
    (hsound : Sound graph fresh walk) (hnew : target ∉ walk.ranked)
    (hinner : Followed graph (fresh.erase target) target (graph.successors target) none walk
      (behind, inner)) (hname : name ∈ graph.successors target) :
    (target, name) ∈ inner.broken ↔ name ∉ fresh.erase target := by
  constructor
  · intro hbroken
    -- An edge broken before or below belongs to another node.
    rcases hinner.broken_new _ hbroken with hold | ⟨_, hopen⟩ | ⟨hfresh, _⟩
    · rcases hsound.broken_source _ hold with hranked | hopen
      · exact absurd hranked hnew
      · exact absurd htarget hopen
    · exact hopen
    · exact absurd hfresh hnodup.not_mem_erase
  · exact hinner.target_broken name hname

/-- A node is ranked when all its edges have been followed. -/
theorem Followed.finish (hnodup : fresh.Nodup) (htarget : target ∈ fresh)
    (hsound : Sound graph fresh walk) (hnew : target ∉ walk.ranked)
    (hinner : Followed graph (fresh.erase target) target (graph.successors target) none walk
      (behind, inner)) :
    Sound graph fresh (inner.finish target behind) where
  settled := by
    refine ⟨fun hmem => hnodup.not_mem_erase (hinner.sound.ranked_fresh target hmem), ?_, ?_,
      hinner.sound.settled⟩
    · intro name hname
      by_cases hfresh : name ∈ fresh.erase target
      · exact .inr (hinner.target_ranked name hname hfresh)
      · exact .inl (hinner.target_broken name hname hfresh)
    · -- What the edges added on the way is what they add now that all targets are ranked.
      have hadded : ∀ name ∈ graph.successors target, added (fresh.erase target) inner name =
          Graph.behind inner.broken (rankIn inner.ranks) target name := by
        intro name hname
        have hiff := hinner.broken_iff hnodup htarget hsound hnew hname
        by_cases hfresh : name ∈ fresh.erase target <;> simp [added, Graph.behind, hiff, hfresh]
      have hdeepest : behind = ((graph.successors target).map
          (Graph.behind inner.broken (rankIn inner.ranks) target)).max? := by
        rw [← List.map_congr_left hadded]
        simpa using hinner.deepest_eq
      change behind.elim 0 (· + 1) = graph.rankOver inner.broken (rankIn inner.ranks) target
      rw [hdeepest, rankOver]
  ranked_fresh := by
    refine List.forall_mem_cons.mpr ⟨htarget, fun name hname => ?_⟩
    exact List.mem_of_mem_erase (hinner.sound.ranked_fresh name hname)
  broken_edge := hinner.sound.broken_edge
  broken_back := hinner.sound.broken_back
  broken_source := by
    intro edge hedge
    by_cases heq : edge.1 = target
    · exact .inl (heq ▸ List.mem_cons_self)
    · refine (hinner.sound.broken_source edge hedge).imp (List.mem_cons_of_mem _) ?_
      exact fun hnot hmem => hnot ((List.mem_erase_of_ne heq).mpr hmem)

theorem Followed.nil (hsound : Sound graph fresh walk) :
    Followed graph fresh source [] deepest walk (deepest, walk) where
  sound := hsound
  ranks_suffix := List.suffix_refl _
  broken_subset := List.Subset.refl _
  broken_new := fun _ hedge => .inl hedge
  target_ranked := by simp
  target_broken := by simp
  deepest_eq := by cases deepest <;> rfl

/-- An edge to a ranked node adds its rank. -/
theorem Followed.of_ranked {rank : Nat} (hsound : Sound graph fresh walk)
    (hlookup : walk.ranks.lookup target = some rank) :
    Followed graph fresh source [target] deepest walk (max deepest (some rank), walk) := by
  have hranked : target ∈ walk.ranked := mem_keys_of_lookup hlookup
  have hfresh : target ∈ fresh := hsound.ranked_fresh target hranked
  exact {
    sound := hsound
    ranks_suffix := List.suffix_refl _
    broken_subset := List.Subset.refl _
    broken_new := fun _ hedge => .inl hedge
    target_ranked := by simp [hranked]
    target_broken := by simp [hfresh]
    deepest_eq := by simp [added, hfresh, rankIn_of_lookup hlookup] }

/-- An edge back into the path adds nothing and is broken. -/
theorem Followed.of_open (hsound : Sound graph fresh walk) (hpath : PathTo graph fresh source)
    (hedge : graph.Edge source target) (htarget : target ∈ graph.names) (hopen : target ∉ fresh) :
    Followed graph fresh source [target] deepest walk
      (max deepest (some 0), { walk with broken := (source, target) :: walk.broken }) where
  sound := hsound.cons_broken hpath hedge (hpath.reaches target htarget hopen)
  ranks_suffix := List.suffix_refl _
  broken_subset := List.subset_cons_self _ _
  broken_new := List.forall_mem_cons.mpr ⟨.inr (.inl ⟨rfl, hopen⟩), fun _ hedge => .inl hedge⟩
  target_ranked := by simp [hopen]
  target_broken := by simp
  deepest_eq := by simp [added, hopen]

/-- An edge to a new node adds the rank that the node gets. -/
theorem Followed.of_new (hnodup : fresh.Nodup) (htarget : target ∈ fresh)
    (hsound : Sound graph fresh walk) (hnew : target ∉ walk.ranked)
    (hinner : Followed graph (fresh.erase target) target (graph.successors target) none walk
      (behind, inner)) :
    Followed graph fresh source [target] deepest walk
      (max deepest (some (behind.elim 0 (· + 1))), inner.finish target behind) where
  sound := hinner.finish hnodup htarget hsound hnew
  ranks_suffix := hinner.ranks_suffix.trans (List.suffix_cons _ _)
  broken_subset := hinner.broken_subset
  broken_new := by
    intro edge hedge
    rcases hinner.broken_new edge hedge with hold | ⟨hsource, _⟩ | ⟨hfresh, hunranked⟩
    · exact .inl hold
    · exact .inr (.inr ⟨hsource ▸ htarget, hsource ▸ hnew⟩)
    · exact .inr (.inr ⟨List.mem_of_mem_erase hfresh, hunranked⟩)
  target_ranked := by simp [ranked, RankWalk.finish]
  target_broken := by simp [htarget]
  deepest_eq := by simp [added, htarget, rankIn, RankWalk.finish]

/-- Following one edge and then the others. -/
theorem Followed.cons {middle result : Option Nat × RankWalk}
    (hfirst : Followed graph fresh source [target] deepest walk middle)
    (hrest : Followed graph fresh source targets middle.1 middle.2 result) :
    Followed graph fresh source (target :: targets) deepest walk result where
  sound := hrest.sound
  ranks_suffix := hfirst.ranks_suffix.trans hrest.ranks_suffix
  broken_subset := List.Subset.trans hfirst.broken_subset hrest.broken_subset
  broken_new := by
    intro edge hedge
    rcases hrest.broken_new edge hedge with hmiddle | hopen | ⟨hfresh, hunranked⟩
    · exact hfirst.broken_new edge hmiddle
    · exact .inr (.inl hopen)
    · refine .inr (.inr ⟨hfresh, fun hranked => hunranked ?_⟩)
      exact keys_subset_of_suffix hfirst.ranks_suffix hranked
  target_ranked := by
    refine List.forall_mem_cons.mpr ⟨fun hfresh => ?_, hrest.target_ranked⟩
    exact keys_subset_of_suffix hrest.ranks_suffix
      (hfirst.target_ranked target List.mem_cons_self hfresh)
  target_broken := by
    refine List.forall_mem_cons.mpr ⟨fun hopen => ?_, hrest.target_broken⟩
    exact hrest.broken_subset (hfirst.target_broken target List.mem_cons_self hopen)
  deepest_eq := by
    have hadded : added fresh middle.2 target = added fresh result.2 target := by
      unfold added
      split
      next hfresh =>
        have hranked := hfirst.target_ranked target List.mem_cons_self hfresh
        exact (rankIn_of_suffix hrest.sound.settled.nodup hrest.ranks_suffix hranked).symm
      next => rfl
    rw [hrest.deepest_eq, hfirst.deepest_eq, List.map_singleton, hadded, List.map_cons,
      List.max?_singleton, List.max?_cons]
    cases deepest <;> cases (targets.map (added fresh result.2)).max? <;> simp [max_assoc]

/-- Following edges keeps the ranks settled and accounts for each of the edges. -/
theorem followed_follow (hgraph : graph.WellFormed) (hpath : PathTo graph fresh source)
    (hsound : Sound graph fresh walk) (htargets : ∀ target ∈ targets, graph.Edge source target) :
    Followed graph fresh source targets deepest walk
      (follow graph fresh source targets deepest walk) := by
  fun_induction follow graph fresh source targets deepest walk with
  | case1 => exact Followed.nil hsound
  | case2 fresh source target targets deepest walk rank hlookup ih =>
      obtain ⟨_, hrest⟩ := List.forall_mem_cons.mp htargets
      exact (Followed.of_ranked hsound hlookup).cons (ih hpath hsound hrest)
  | case3 fresh source target targets deepest walk hlookup hfresh behind inner hfollow ihInner
      ihRest =>
      obtain ⟨hedge, hrest⟩ := List.forall_mem_cons.mp htargets
      have hnew : target ∉ walk.ranked := lookup_eq_none.mp hlookup
      have hinner := ihInner (hpath.erase hedge) (hsound.erase hnew)
        fun name hname => mem_successors.mp hname
      rw [hfollow] at hinner
      have hfirst : Followed graph fresh source [target] deepest walk _ :=
        .of_new hpath.nodup hfresh hsound hnew hinner
      exact hfirst.cons (ihRest hpath hfirst.sound hrest)
  | case4 fresh source target targets deepest walk hlookup hopen ih =>
      obtain ⟨hedge, hrest⟩ := List.forall_mem_cons.mp htargets
      have hfirst : Followed graph fresh source [target] deepest walk _ :=
        .of_open hsound hpath hedge (hgraph.target_mem _ hedge) hopen
      exact hfirst.cons (ih hpath hfirst.sound hrest)

/-- A visit ranks its root, and keeps what was ranked before. -/
theorem sound_visit (hgraph : graph.WellFormed) (hsound : Sound graph graph.names walk)
    (hroot : name ∈ graph.names) :
    Sound graph graph.names (visit graph walk name) ∧ name ∈ (visit graph walk name).ranked ∧
      walk.ranks <:+ (visit graph walk name).ranks := by
  unfold visit
  split
  next rank hlookup => exact ⟨hsound, mem_keys_of_lookup hlookup, List.suffix_refl _⟩
  next hlookup =>
    have hnew : name ∉ walk.ranked := lookup_eq_none.mp hlookup
    have hinner : Followed graph (graph.names.erase name) name (graph.successors name) none walk
        (follow graph (graph.names.erase name) name (graph.successors name) none walk) :=
      followed_follow hgraph (PathTo.root hgraph) (hsound.erase hnew)
        fun target htarget => mem_successors.mp htarget
    have hfirst : Followed graph graph.names name [name] none walk _ :=
      .of_new hgraph.nodup hroot hsound hnew hinner
    exact ⟨hfirst.sound, hfirst.target_ranked name List.mem_cons_self hroot, hfirst.ranks_suffix⟩

/-- Visiting roots one after the other ranks all of them. -/
theorem sound_foldl_visit (hgraph : graph.WellFormed) (roots : List String)
    (hsound : Sound graph graph.names walk) (hroots : ∀ root ∈ roots, root ∈ graph.names) :
    Sound graph graph.names (roots.foldl (visit graph) walk) ∧
      (∀ root ∈ roots, root ∈ (roots.foldl (visit graph) walk).ranked) ∧
      walk.ranks <:+ (roots.foldl (visit graph) walk).ranks := by
  induction roots generalizing walk with
  | nil => exact ⟨hsound, by simp, List.suffix_refl _⟩
  | cons root roots ih =>
      obtain ⟨hroot, hrest⟩ := List.forall_mem_cons.mp hroots
      obtain ⟨hvisit, hranked, hsuffix⟩ := sound_visit hgraph hsound hroot
      obtain ⟨hlast, hall, hgrown⟩ := ih hvisit hrest
      refine ⟨hlast, List.forall_mem_cons.mpr ⟨?_, hall⟩, hsuffix.trans hgrown⟩
      exact keys_subset_of_suffix hgrown hranked

end OberonImports.Graph.RankWalk

namespace OberonImports.Graph

open Lookup

variable {graph : Graph} {name : String}

theorem sound_rankWalk (hgraph : graph.WellFormed) :
    RankWalk.Sound graph graph.names graph.rankWalk :=
  (RankWalk.sound_foldl_visit hgraph _ .start fun _ hroot => List.mem_mergeSort.mp hroot).1

/-- The walk ranks the nodes of the graph and nothing else. -/
theorem mem_ranked_rankWalk (hgraph : graph.WellFormed) :
    name ∈ graph.rankWalk.ranked ↔ name ∈ graph.names := by
  refine ⟨(sound_rankWalk hgraph).ranked_fresh name, fun hname => ?_⟩
  have hall := (RankWalk.sound_foldl_visit hgraph (graph.names.mergeSort (· ≤ ·)) .start
    fun _ hroot => List.mem_mergeSort.mp hroot).2.1
  exact hall name (List.mem_mergeSort.mpr hname)

/-- The rank of a node of the graph. -/
def rankOf (graph : Graph) : String → Nat := rankIn graph.rankWalk.ranks

/-- The ranks of a graph list the rank of each of its nodes. -/
theorem rank?_ranks (hgraph : graph.WellFormed) (hname : name ∈ graph.names) :
    graph.ranks.rank? name = some (graph.rankOf name) := by
  obtain ⟨rank, hrank⟩ := exists_lookup ((mem_ranked_rankWalk hgraph).mpr hname)
  have hsorted : graph.ranks.rank? name = graph.rankWalk.ranks.lookup name :=
    (lookup_perm (sound_rankWalk hgraph).settled.nodup (List.mergeSort_perm _ _).symm).symm
  rw [hsorted, hrank, rankOf, rankIn_of_lookup hrank]

theorem mem_brokenEdges {edge : String × String} :
    edge ∈ graph.brokenEdges ↔ edge ∈ graph.rankWalk.broken :=
  List.mem_reverse

/-- The rank of a node is what its edges give it, with the broken edges adding nothing. -/
theorem rankOf_eq (hgraph : graph.WellFormed) (hname : name ∈ graph.names) :
    graph.rankOf name = graph.rankOver graph.brokenEdges graph.rankOf name := by
  rw [rankOf, (sound_rankWalk hgraph).settled.rankIn_eq ((mem_ranked_rankWalk hgraph).mpr hname)]
  apply rankOver_congr
  intro target _
  simp only [behind, mem_brokenEdges]

/-- A node ranks above all that its edges add. -/
theorem behind_lt_rankOf {target : String} (hgraph : graph.WellFormed)
    (hedge : graph.Edge name target) :
    behind graph.brokenEdges graph.rankOf name target < graph.rankOf name := by
  rw [rankOf_eq hgraph (hgraph.source_mem _ hedge)]
  exact behind_lt_rankOver (mem_successors.mpr hedge)

/-- A node above rank 0 ranks one above what some edge adds. -/
theorem exists_edge_of_rankOf_eq_succ {height : Nat} (hgraph : graph.WellFormed)
    (hname : name ∈ graph.names) (hrank : graph.rankOf name = height + 1) :
    ∃ target, graph.Edge name target ∧
      behind graph.brokenEdges graph.rankOf name target = height := by
  rw [rankOf_eq hgraph hname] at hrank
  exact exists_of_rankOver_eq_succ hrank

/-- A broken edge is an edge of the graph that closes a cycle. -/
theorem edge_of_mem_brokenEdges (hgraph : graph.WellFormed) {edge : String × String}
    (hedge : edge ∈ graph.brokenEdges) :
    graph.Edge edge.1 edge.2 ∧ graph.Reaches edge.2 edge.1 :=
  have hbroken := mem_brokenEdges.mp hedge
  ⟨(sound_rankWalk hgraph).broken_edge edge hbroken,
    (sound_rankWalk hgraph).broken_back edge hbroken⟩

end OberonImports.Graph
