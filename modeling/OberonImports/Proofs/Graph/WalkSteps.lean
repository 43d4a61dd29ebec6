import Mathlib.Algebra.BigOperators.Group.Finset.Basic
import Mathlib.Algebra.GroupWithZero.Nat
import OberonImports.Proofs.Graph.RankWalk

/-!
# The walk in search of ranks, step by step

The walk for ranks goes on edge by edge: it enters a node, follows its edges one after the other, and
leaves the node when there are none left. Which nodes are on the path is kept in a set of its own.
The set holds just the nodes whose edges are being followed, and none of them is ranked. The walk
ends with the ranks of the whole walk and an empty path, after a step for each edge and two for each
node.
-/

namespace OberonImports.Graph

open Lookup

/-- A node whose edges are being followed: what they lead to from here on, and the highest rank
found behind them. -/
structure Call where
  name : String
  targets : List String
  deepest : Option Nat

/-- A walk under way: the roots still to come, the nodes whose edges are being followed, innermost
first, the nodes on the path, and what has been found. -/
structure WalkState where
  roots : List String
  calls : List Call
  onPath : List String
  walk : RankWalk

variable {graph : Graph} {name target root : String} {roots targets fresh onPath : List String}
  {calls : List Call} {deepest : Option Nat} {walk : RankWalk} {state middle last : WalkState}
  {count more : Nat}

/-- The innermost node learns the rank of the node that its edge has led to. -/
def Call.hand (rank : Nat) : List Call → List Call
  | [] => []
  | call :: calls => { call with deepest := max call.deepest (some rank) } :: calls

theorem Call.map_name_hand (rank : Nat) :
    (hand rank calls).map (·.name) = calls.map (·.name) := by
  cases calls <;> rfl

namespace WalkState

/-- Start to follow the edges of a node. -/
def enter (graph : Graph) (state : WalkState) (name : String) : WalkState :=
  { state with
    calls := ⟨name, graph.successors name, none⟩ :: state.calls
    onPath := name :: state.onPath }

/-- Rank a node all of whose edges have been followed. -/
def leave (state : WalkState) (call : Call) (calls : List Call) : WalkState :=
  { state with
    calls := Call.hand (call.deepest.elim 0 (· + 1)) calls
    onPath := state.onPath.erase call.name
    walk := state.walk.finish call.name call.deepest }

/-- A node is neither ranked nor on the path. -/
def IsNew (state : WalkState) (name : String) : Prop :=
  state.walk.ranks.lookup name = none ∧ name ∉ state.onPath

instance : Decidable (state.IsNew name) := inferInstanceAs (Decidable (_ ∧ _))

end WalkState

/-- One step of the walk. -/
def walkStep (graph : Graph) (state : WalkState) : WalkState :=
  match state.calls with
  | [] =>
      match state.roots with
      | [] => state
      | root :: roots =>
          if state.IsNew root then WalkState.enter graph { state with roots := roots } root
          else { state with roots := roots }
  | ⟨name, [], deepest⟩ :: calls => state.leave ⟨name, [], deepest⟩ calls
  | ⟨name, target :: targets, deepest⟩ :: calls =>
      match state.walk.ranks.lookup target with
      | some rank => { state with calls := ⟨name, targets, max deepest (some rank)⟩ :: calls }
      | none =>
          if target ∈ state.onPath then
            { state with
              calls := ⟨name, targets, max deepest (some 0)⟩ :: calls
              walk := { state.walk with broken := (name, target) :: state.walk.broken } }
          else WalkState.enter graph { state with calls := ⟨name, targets, deepest⟩ :: calls } target

/-- Where the walk starts: all nodes are roots, in ascending order of their names. -/
def walkStart (graph : Graph) : WalkState := ⟨graph.names.mergeSort (· ≤ ·), [], [], .start⟩

/-! ## What holds between any two steps -/

namespace WalkState

/-- The path has the nodes whose edges are being followed, once each. The ranked nodes are others,
once each too. -/
structure Coherent (state : WalkState) : Prop where
  onPath_eq : state.onPath = state.calls.map (·.name)
  nodup_onPath : state.onPath.Nodup
  nodup_ranked : state.walk.ranked.Nodup
  not_ranked : ∀ name ∈ state.onPath, name ∉ state.walk.ranked

theorem Coherent.start : (walkStart graph).Coherent where
  onPath_eq := rfl
  nodup_onPath := List.nodup_nil
  nodup_ranked := List.nodup_nil
  not_ranked := nofun

/-- What the roots, the edges to come and the broken edges are does not matter. -/
theorem Coherent.congr (hstate : state.Coherent) (honPath : last.onPath = state.onPath)
    (hcalls : last.calls.map (·.name) = state.calls.map (·.name))
    (hranks : last.walk.ranks = state.walk.ranks) : last.Coherent where
  onPath_eq := by rw [honPath, hstate.onPath_eq, hcalls]
  nodup_onPath := honPath ▸ hstate.nodup_onPath
  nodup_ranked := by
    rw [RankWalk.ranked, hranks]
    exact hstate.nodup_ranked
  not_ranked := by
    rw [honPath, RankWalk.ranked, hranks]
    exact hstate.not_ranked

theorem Coherent.enter (hstate : state.Coherent) (hnew : state.IsNew name) :
    (state.enter graph name).Coherent where
  onPath_eq := congrArg (name :: ·) hstate.onPath_eq
  nodup_onPath := List.nodup_cons.mpr ⟨hnew.2, hstate.nodup_onPath⟩
  nodup_ranked := hstate.nodup_ranked
  not_ranked := List.forall_mem_cons.mpr ⟨lookup_eq_none.mp hnew.1, hstate.not_ranked⟩

theorem Coherent.leave {call : Call} (hstate : state.Coherent)
    (hcalls : state.calls = call :: calls) : (state.leave call calls).Coherent := by
  have hpath : state.onPath = call.name :: calls.map (·.name) := by
    rw [hstate.onPath_eq, hcalls, List.map_cons]
  have hnodup := hstate.nodup_onPath
  have hranked := hstate.not_ranked
  rw [hpath] at hnodup hranked
  obtain ⟨hhead, htail⟩ := List.nodup_cons.mp hnodup
  obtain ⟨hnew, hrest⟩ := List.forall_mem_cons.mp hranked
  have herase : (state.leave call calls).onPath = calls.map (·.name) := by
    rw [WalkState.leave, hpath, List.erase_cons_head]
  exact {
    onPath_eq := herase.trans (Call.map_name_hand _).symm
    nodup_onPath := herase ▸ htail
    nodup_ranked := List.nodup_cons.mpr ⟨hnew, hstate.nodup_ranked⟩
    not_ranked := by
      rw [herase]
      intro name hname
      refine fun hmem => (List.mem_cons.mp hmem).elim ?_ (hrest name hname)
      rintro rfl
      exact hhead hname }

theorem Coherent.walkStep (hstate : state.Coherent) : (graph.walkStep state).Coherent := by
  unfold Graph.walkStep
  split
  next =>
    split
    next => exact hstate
    next root roots hroots =>
      have hpassed : Coherent { state with roots := roots } := hstate.congr rfl rfl rfl
      split
      next hnew => exact hpassed.enter hnew
      next => exact hpassed
  next name deepest calls hcalls => exact hstate.leave hcalls
  next name target targets deepest calls hcalls =>
    have hnames : state.calls.map (·.name) = name :: calls.map (·.name) := by
      rw [hcalls, List.map_cons]
    split
    next => exact hstate.congr rfl hnames.symm rfl
    next hlookup =>
      split
      next => exact hstate.congr rfl hnames.symm rfl
      next hnot =>
        have hpassed : Coherent { state with calls := ⟨name, targets, deepest⟩ :: calls } :=
          hstate.congr rfl hnames.symm rfl
        exact hpassed.enter ⟨hlookup, hnot⟩

theorem coherent_iterate (graph : Graph) (count : Nat) :
    ((walkStep graph)^[count] graph.walkStart).Coherent := by
  induction count with
  | zero => exact .start
  | succ count ih =>
      rw [Function.iterate_succ_apply']
      exact ih.walkStep

end WalkState

/-! ## How many steps the walk takes -/

/-- So many steps lead from one state to the other. -/
def Takes (graph : Graph) (count : Nat) (state last : WalkState) : Prop :=
  (walkStep graph)^[count] state = last

theorem Takes.trans (hfirst : Takes graph count state middle) (hrest : Takes graph more middle last) :
    Takes graph (count + more) state last := by
  rw [Takes, Nat.add_comm, Function.iterate_add_apply, hfirst, hrest]

theorem takes_ranked {rank : Nat} (hlookup : walk.ranks.lookup target = some rank) :
    Takes graph 1 ⟨roots, ⟨name, target :: targets, deepest⟩ :: calls, onPath, walk⟩
      ⟨roots, ⟨name, targets, max deepest (some rank)⟩ :: calls, onPath, walk⟩ := by
  rw [Takes, Function.iterate_one, walkStep]
  simp only [hlookup]

theorem takes_open (hlookup : walk.ranks.lookup target = none) (hopen : target ∈ onPath) :
    Takes graph 1 ⟨roots, ⟨name, target :: targets, deepest⟩ :: calls, onPath, walk⟩
      ⟨roots, ⟨name, targets, max deepest (some 0)⟩ :: calls, onPath,
        { walk with broken := (name, target) :: walk.broken }⟩ := by
  rw [Takes, Function.iterate_one, walkStep]
  simp only [hlookup, hopen, if_true]

theorem takes_enter (hlookup : walk.ranks.lookup target = none) (hnot : target ∉ onPath) :
    Takes graph 1 ⟨roots, ⟨name, target :: targets, deepest⟩ :: calls, onPath, walk⟩
      ⟨roots, ⟨target, graph.successors target, none⟩ :: ⟨name, targets, deepest⟩ :: calls,
        target :: onPath, walk⟩ := by
  rw [Takes, Function.iterate_one, walkStep]
  simp only [hlookup, hnot, if_false]
  rfl

theorem takes_leave : Takes graph 1 ⟨roots, ⟨name, [], deepest⟩ :: calls, name :: onPath, walk⟩
    ⟨roots, Call.hand (deepest.elim 0 (· + 1)) calls, onPath, walk.finish name deepest⟩ := by
  have hpath : (name :: onPath).erase name = onPath := List.erase_cons_head name onPath
  rw [Takes, Function.iterate_one, walkStep]
  simp only [WalkState.leave, hpath]

theorem takes_root_new (hlookup : walk.ranks.lookup root = none) :
    Takes graph 1 ⟨root :: roots, [], [], walk⟩
      ⟨roots, [⟨root, graph.successors root, none⟩], [root], walk⟩ := by
  have hnew : WalkState.IsNew ⟨root :: roots, [], [], walk⟩ root := ⟨hlookup, List.not_mem_nil⟩
  rw [Takes, Function.iterate_one, walkStep]
  exact if_pos hnew

theorem takes_root_ranked {rank : Nat} (hlookup : walk.ranks.lookup root = some rank) :
    Takes graph 1 ⟨root :: roots, [], [], walk⟩ ⟨roots, [], [], walk⟩ := by
  have hold : ¬ WalkState.IsNew ⟨root :: roots, [], [], walk⟩ root := by
    simp [WalkState.IsNew, hlookup]
  rw [Takes, Function.iterate_one, walkStep]
  exact if_neg hold

/-- The steps that ranking the ranked nodes has taken: one for each edge, and one to leave each
node. -/
def spent (graph : Graph) (walk : RankWalk) : Nat :=
  (walk.ranked.map fun name => (graph.successors name).length + 1).sum

theorem spent_finish : graph.spent (walk.finish name deepest) =
    (graph.successors name).length + 1 + graph.spent walk := by
  rw [spent, RankWalk.ranked_finish, List.map_cons, List.sum_cons, spent]

/-- The nodes that are not on the path are the fresh ones. -/
structure Splits (graph : Graph) (fresh onPath : List String) : Prop where
  nodup : fresh.Nodup
  fresh_iff : ∀ name ∈ graph.names, name ∈ fresh ↔ name ∉ onPath

theorem Splits.erase (hsplits : Splits graph fresh onPath) :
    Splits graph (fresh.erase name) (name :: onPath) where
  nodup := hsplits.nodup.erase name
  fresh_iff := by
    intro other hother
    rw [hsplits.nodup.mem_erase_iff, hsplits.fresh_iff other hother, List.mem_cons, not_or]

/-- Following the edges of a node leaves the path as it was, and takes a step for each edge beside
those spent on the nodes that it ranks. -/
theorem takes_follow (hgraph : graph.WellFormed) (hsplits : Splits graph fresh onPath)
    (htargets : ∀ target ∈ targets, target ∈ graph.names) (calls : List Call) :
    ∃ count,
      Takes graph count ⟨roots, ⟨name, targets, deepest⟩ :: calls, onPath, walk⟩
        ⟨roots, ⟨name, [], (RankWalk.follow graph fresh name targets deepest walk).1⟩ :: calls,
          onPath, (RankWalk.follow graph fresh name targets deepest walk).2⟩ ∧
      count + graph.spent walk =
        targets.length + graph.spent (RankWalk.follow graph fresh name targets deepest walk).2 := by
  fun_induction RankWalk.follow graph fresh name targets deepest walk generalizing onPath calls with
  | case1 => exact ⟨0, rfl, by simp⟩
  | case2 fresh name target targets deepest walk rank hlookup ih =>
      obtain ⟨count, htakes, hcount⟩ := ih hsplits (List.forall_mem_cons.mp htargets).2 calls
      refine ⟨1 + count, (takes_ranked hlookup).trans htakes, ?_⟩
      rw [List.length_cons]
      omega
  | case3 fresh name target targets deepest walk hlookup hfresh behind inner hfollow ihInner
      ihRest =>
      obtain ⟨htarget, hrest⟩ := List.forall_mem_cons.mp htargets
      have hnot : target ∉ onPath := (hsplits.fresh_iff target htarget).mp hfresh
      have hinner := ihInner hsplits.erase
        (fun next hnext => hgraph.mem_names_of_mem_successors hnext)
        (⟨name, targets, deepest⟩ :: calls)
      rw [hfollow] at hinner
      obtain ⟨below, hbelow, hspent⟩ := hinner
      obtain ⟨count, htakes, hcount⟩ := ihRest hsplits hrest calls
      -- The edge is followed to the target, whose edges are followed, and the target is left.
      have henter := (takes_enter hlookup hnot).trans hbelow
      refine ⟨1 + below + 1 + count, (henter.trans takes_leave).trans htakes, ?_⟩
      change below + graph.spent walk = _ + graph.spent inner at hspent
      rw [spent_finish] at hcount
      rw [List.length_cons]
      omega
  | case4 fresh name target targets deepest walk hlookup hopen ih =>
      obtain ⟨htarget, hrest⟩ := List.forall_mem_cons.mp htargets
      have honPath : target ∈ onPath := by
        by_contra hnot
        exact hopen ((hsplits.fresh_iff target htarget).mpr hnot)
      obtain ⟨count, htakes, hcount⟩ := ih hsplits hrest calls
      refine ⟨1 + count, (takes_open hlookup honPath).trans htakes, ?_⟩
      change count + graph.spent walk = _ at hcount
      rw [List.length_cons]
      omega

theorem splits_root (hgraph : graph.WellFormed) :
    Splits graph (graph.names.erase root) [root] where
  nodup := hgraph.nodup.erase root
  fresh_iff := by
    intro name hname
    simp [hgraph.nodup.mem_erase_iff, hname]

/-- Visiting a root leaves the path empty, and takes one step beside those spent on the nodes that
it ranks. -/
theorem takes_visit (hgraph : graph.WellFormed) : ∃ count,
    Takes graph count ⟨root :: roots, [], [], walk⟩
      ⟨roots, [], [], RankWalk.visit graph walk root⟩ ∧
    count + graph.spent walk = 1 + graph.spent (RankWalk.visit graph walk root) := by
  unfold RankWalk.visit
  split
  next rank hlookup => exact ⟨1, takes_root_ranked hlookup, rfl⟩
  next hlookup =>
    obtain ⟨count, htakes, hcount⟩ := takes_follow hgraph (splits_root hgraph)
      (fun target htarget => hgraph.mem_names_of_mem_successors htarget) []
    refine ⟨1 + count + 1, ((takes_root_new hlookup).trans htakes).trans takes_leave, ?_⟩
    rw [spent_finish]
    omega

theorem takes_foldl_visit (hgraph : graph.WellFormed) (roots : List String) (walk : RankWalk) :
    ∃ count, Takes graph count ⟨roots, [], [], walk⟩
        ⟨[], [], [], roots.foldl (RankWalk.visit graph) walk⟩ ∧
      count + graph.spent walk =
        roots.length + graph.spent (roots.foldl (RankWalk.visit graph) walk) := by
  induction roots generalizing walk with
  | nil => exact ⟨0, rfl, rfl⟩
  | cons root roots ih =>
      obtain ⟨count, htakes, hcount⟩ := takes_visit hgraph
      obtain ⟨more, hrest, hmore⟩ := ih (RankWalk.visit graph walk root)
      refine ⟨count + more, htakes.trans hrest, ?_⟩
      rw [List.length_cons, List.foldl_cons]
      omega

/-! ## The whole walk -/

/-- Each edge is an edge of one node. -/
theorem sum_length_successors (hgraph : graph.WellFormed) :
    (graph.names.map fun name => (graph.successors name).length).sum = graph.edges.length := by
  have hcount : ∀ name, (graph.successors name).length =
      Multiset.count name ↑(graph.edges.map (·.1)) := by
    intro name
    rw [successors, List.length_map, Multiset.coe_count, List.count_eq_countP, List.countP_map,
      List.countP_eq_length_filter]
    rfl
  have hsource : ∀ name ∈ (↑(graph.edges.map (·.1)) : Multiset String),
      name ∈ graph.names.toFinset := by
    intro name hname
    obtain ⟨edge, hedge, rfl⟩ := List.mem_map.mp hname
    exact List.mem_toFinset.mpr (hgraph.source_mem edge hedge)
  simp only [hcount]
  rw [← List.sum_toFinset _ hgraph.nodup, Multiset.sum_count_eq_card hsource, Multiset.coe_card,
    List.length_map]

/-- The walk ranks each node once. -/
theorem perm_ranked_rankWalk (hgraph : graph.WellFormed) :
    graph.rankWalk.ranked.Perm graph.names :=
  (List.perm_ext_iff_of_nodup (sound_rankWalk hgraph).settled.nodup hgraph.nodup).mpr
    fun _ => mem_ranked_rankWalk hgraph

theorem spent_rankWalk (hgraph : graph.WellFormed) :
    graph.spent graph.rankWalk = graph.edges.length + graph.nodes.length := by
  have hnames : graph.names.length = graph.nodes.length := List.length_map _
  rw [spent, ((perm_ranked_rankWalk hgraph).map _).sum_eq, List.sum_map_add,
    sum_length_successors hgraph, List.map_const', List.sum_replicate_nat, hnames,
    Nat.mul_one]

/-- The walk ends with all roots visited, no node entered and an empty path, after a step for each
edge and two for each node. -/
theorem takes_rankWalk (hgraph : graph.WellFormed) :
    Takes graph (graph.edges.length + 2 * graph.nodes.length) graph.walkStart
      ⟨[], [], [], graph.rankWalk⟩ := by
  obtain ⟨count, htakes, hcount⟩ :=
    takes_foldl_visit hgraph (graph.names.mergeSort (· ≤ ·)) .start
  have hroots : (graph.names.mergeSort (· ≤ ·)).length = graph.nodes.length := by
    rw [List.length_mergeSort, names, List.length_map]
  have hend : (graph.names.mergeSort (· ≤ ·)).foldl (RankWalk.visit graph) .start =
    graph.rankWalk := rfl
  have hstart : graph.spent .start = 0 := rfl
  rw [hend, hroots, hstart, spent_rankWalk hgraph] at hcount
  rw [hend] at htakes
  obtain rfl : count = graph.edges.length + 2 * graph.nodes.length := by omega
  exact htakes

end OberonImports.Graph
