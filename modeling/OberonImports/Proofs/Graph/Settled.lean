import OberonImports.Graph.Rank
import OberonImports.Proofs.Graph.Reachability
import OberonImports.Proofs.Lookup

/-!
# Settled ranks

Ranks are found one after the other. A list of ranks, newest first, is settled with respect to some
broken edges if each node has the rank that its edges give it, and every edge of it is broken or
leads to a node that was ranked before. So the edges that are not broken lead from newer to older
nodes and form no cycle.
-/

namespace OberonImports.Graph

open Lookup Relation

variable {graph : Graph} {name target : String} {broken other : List (String × String)}
  {ranks older : List (String × Nat)} {rank rank' : String → Nat}

/-- What an edge adds to the rank of its source: nothing if the edge is broken, else the rank of
its target. -/
def behind (broken : List (String × String)) (rank : String → Nat) (source target : String) : Nat :=
  if (source, target) ∈ broken then 0 else rank target

/-- The rank that the edges of a node give it: 0 if there are none, else one more than the most that
an edge adds. -/
def rankOver (graph : Graph) (broken : List (String × String)) (rank : String → Nat)
    (name : String) : Nat :=
  ((graph.successors name).map (behind broken rank name)).max?.elim 0 (· + 1)

/-- The rank of a name in a list of ranks, 0 for a name without one. -/
def rankIn (ranks : List (String × Nat)) (name : String) : Nat := (ranks.lookup name).getD 0

/-- Each node has the rank that its edges give it, and each of its edges is broken or leads to a
node further down the list. -/
def Settled (graph : Graph) (broken : List (String × String)) : List (String × Nat) → Prop
  | [] => True
  | (name, rank) :: older =>
      name ∉ keys older ∧
      (∀ target ∈ graph.successors name, (name, target) ∈ broken ∨ target ∈ keys older) ∧
      rank = graph.rankOver broken (rankIn older) name ∧
      Settled graph broken older

theorem rankOver_congr
    (hbehind : ∀ target ∈ graph.successors name,
      behind broken rank name target = behind other rank' name target) :
    graph.rankOver broken rank name = graph.rankOver other rank' name := by
  unfold rankOver
  rw [List.map_congr_left hbehind]

theorem behind_of_kept (hkept : (name, target) ∉ broken) :
    behind broken rank name target = rank target :=
  if_neg hkept

theorem behind_le : behind broken rank name target ≤ rank target := by
  unfold behind
  split
  next => exact Nat.zero_le _
  next => exact le_rfl

/-- Under other ranks an edge adds as much, up to what its target may rank lower there. -/
theorem behind_le_behind {slack : Nat}
    (hle : (name, target) ∉ broken → rank target ≤ rank' target + slack) :
    behind broken rank name target ≤ behind broken rank' name target + slack := by
  unfold behind
  split
  next => exact Nat.zero_le _
  next hkept => exact hle hkept

/-- A node ranks above all that its edges add. -/
theorem behind_lt_rankOver (htarget : target ∈ graph.successors name) :
    behind broken rank name target < graph.rankOver broken rank name := by
  have hmem : behind broken rank name target ∈
      (graph.successors name).map (behind broken rank name) := List.mem_map_of_mem htarget
  unfold rankOver
  cases hmax : ((graph.successors name).map (behind broken rank name)).max? with
  | none => simp [List.max?_eq_none_iff.mp hmax] at hmem
  | some highest => exact Nat.lt_succ_of_le ((List.max?_le_iff hmax).mp le_rfl _ hmem)

/-- A node above rank 0 ranks one above what some edge adds. -/
theorem exists_of_rankOver_eq_succ {height : Nat}
    (hrank : graph.rankOver broken rank name = height + 1) :
    ∃ target, graph.Edge name target ∧ behind broken rank name target = height := by
  unfold rankOver at hrank
  cases hmax : ((graph.successors name).map (behind broken rank name)).max? with
  | none => simp [hmax] at hrank
  | some highest =>
      obtain ⟨target, htarget, hbehind⟩ := List.mem_map.mp (List.max?_mem hmax)
      refine ⟨target, mem_successors.mp htarget, ?_⟩
      rw [hmax] at hrank
      exact hbehind.trans (Nat.succ.inj hrank)

theorem rankIn_of_lookup {value : Nat} (hlookup : ranks.lookup name = some value) :
    rankIn ranks name = value := by
  simp [rankIn, hlookup]

/-- A rank stays when others are found. -/
theorem rankIn_of_suffix (hnodup : (keys ranks).Nodup) (hsuffix : older <:+ ranks)
    (hname : name ∈ keys older) : rankIn ranks name = rankIn older name :=
  getD_lookup_of_suffix hnodup hsuffix hname 0

namespace Settled

theorem nodup (hsettled : Settled graph broken ranks) : (keys ranks).Nodup := by
  induction ranks with
  | nil => exact List.nodup_nil
  | cons pair older ih =>
      obtain ⟨hnew, _, _, holder⟩ := hsettled
      exact List.nodup_cons.mpr ⟨hnew, ih holder⟩

/-- Only the broken edges of ranked nodes matter. -/
theorem congr (hsettled : Settled graph broken ranks)
    (hbroken : ∀ edge, edge.1 ∈ keys ranks → (edge ∈ broken ↔ edge ∈ other)) :
    Settled graph other ranks := by
  induction ranks with
  | nil => trivial
  | cons pair older ih =>
      obtain ⟨name, rank⟩ := pair
      obtain ⟨hnew, htargets, hrank, holder⟩ := hsettled
      have hhead : ∀ target, (name, target) ∈ broken ↔ (name, target) ∈ other :=
        fun target => hbroken (name, target) List.mem_cons_self
      refine ⟨hnew, ?_, ?_, ih holder fun edge hedge => hbroken edge (List.mem_cons_of_mem _ hedge)⟩
      · intro target htarget
        rw [← hhead]
        exact htargets target htarget
      · rw [hrank]
        apply rankOver_congr
        intro target _
        simp only [behind, hhead]

/-- A ranked node was settled when it was ranked, over the nodes ranked before it. -/
theorem exists_older (hsettled : Settled graph broken ranks) (hname : name ∈ keys ranks) :
    ∃ rank older, (name, rank) :: older <:+ ranks ∧
      Settled graph broken ((name, rank) :: older) := by
  induction ranks with
  | nil => cases hname
  | cons pair earlier ih =>
      by_cases heq : name = pair.1
      · subst heq
        exact ⟨pair.2, earlier, List.suffix_refl _, hsettled⟩
      · have hearlier : name ∈ keys earlier := (List.mem_cons.mp hname).resolve_left heq
        obtain ⟨rank, older, hsuffix, holder⟩ := ih hsettled.2.2.2 hearlier
        exact ⟨rank, older, hsuffix.trans (List.suffix_cons _ _), holder⟩

/-- The ranks found later do not disturb the equation that gives a node its rank. -/
theorem rankIn_eq (hsettled : Settled graph broken ranks) (hname : name ∈ keys ranks) :
    rankIn ranks name = graph.rankOver broken (rankIn ranks) name := by
  obtain ⟨rank, older, hsuffix, hnew, htargets, hrank, _⟩ := hsettled.exists_older hname
  have hnodup := hsettled.nodup
  have holder : older <:+ ranks := (List.suffix_cons _ _).trans hsuffix
  rw [rankIn_of_lookup (lookup_of_suffix hnodup hsuffix List.lookup_cons_self), hrank]
  apply rankOver_congr
  intro target htarget
  unfold behind
  split
  next => rfl
  next hkept =>
    have hknown := (htargets target htarget).resolve_left hkept
    exact (rankIn_of_suffix hnodup holder hknown).symm

/-- An edge of a ranked node is broken or leads to a node that stands further down the list. -/
theorem idxOf_lt (hsettled : Settled graph broken ranks) (hname : name ∈ keys ranks)
    (hedge : graph.Edge name target) :
    (name, target) ∈ broken ∨
      target ∈ keys ranks ∧ (keys ranks).idxOf name < (keys ranks).idxOf target := by
  obtain ⟨rank, older, ⟨newer, hranks⟩, hnew, htargets, _, _⟩ := hsettled.exists_older hname
  apply (htargets target (mem_successors.mpr hedge)).imp id
  intro hknown
  have hkeys : keys ranks = keys newer ++ name :: keys older := by simp [← hranks, keys]
  have hnodup := hsettled.nodup
  rw [hkeys, List.nodup_append] at hnodup
  have hnot : ∀ known ∈ name :: keys older, known ∉ keys newer :=
    fun known hknown hmem => hnodup.2.2 known hmem known hknown rfl
  have hne : name ≠ target := fun heq => hnew (heq ▸ hknown)
  rw [hkeys, List.idxOf_append_of_notMem (hnot name List.mem_cons_self),
    List.idxOf_append_of_notMem (hnot target (List.mem_cons_of_mem _ hknown)),
    List.idxOf_cons_self, List.idxOf_cons_ne _ hne]
  exact ⟨by simp [hknown], by omega⟩

/-- Without the broken edges, a graph all of whose nodes are ranked has no cycle. -/
theorem acyclic (hsettled : Settled graph broken ranks)
    (hsource : ∀ edge ∈ graph.edges, edge.1 ∈ keys ranks) : (graph.without broken).Acyclic := by
  -- An edge leads to a node ranked earlier, which stands further down the list.
  let height := fun name => (keys ranks).length - (keys ranks).idxOf name
  have hfalls : ∀ edge ∈ (graph.without broken).edges, edge.1 ∈ keys ranks →
      edge.2 ∈ keys ranks ∧ height edge.2 < height edge.1 := by
    rintro ⟨source, target⟩ hedge (hranked : source ∈ keys ranks)
    obtain ⟨hedge, hkept⟩ := edge_without.mp hedge
    obtain ⟨htarget, hlt⟩ := (hsettled.idxOf_lt hranked hedge).resolve_left hkept
    have hlength := List.idxOf_lt_length_of_mem htarget
    refine ⟨htarget, ?_⟩
    change (keys ranks).length - (keys ranks).idxOf target <
      (keys ranks).length - (keys ranks).idxOf source
    omega
  intro name hcycle
  obtain ⟨next, hedge, -⟩ := TransGen.head'_iff.mp hcycle
  have hranked := hsource (name, next) (edge_without.mp hedge).1
  exact AcyclicFrom.of_height height hfalls hranked name Reaches.refl hcycle

end Settled

end OberonImports.Graph
