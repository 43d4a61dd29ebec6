import OberonImports.Proofs.Graph.Cycles
import OberonImports.Proofs.Graph.RankTable
import OberonImports.Proofs.Json.Value
import OberonImports.Proofs.Text.Pieces
import OberonImports.Report

/-!
# Reading a rank document back

The rank document of a graph is a JSON object. Read as such, it tells the rank of each node, the
nodes of each level under the decimal numeral of the level, the highest rank and the cycles. So
graphs with different ranks or cycles have different documents.
-/

namespace OberonImports

namespace Json

def num? : Json → Option Nat
  | num n => some n
  | _ => none

def str? : Json → Option String
  | str s => some s
  | _ => none

def items? : Json → Option (List Json)
  | arr items => some items
  | _ => none

def fields? : Json → Option (List (String × Json))
  | obj fields => some fields
  | _ => none

/-- The value of a key. -/
def field? (json : Json) (key : String) : Option Json := json.fields?.bind (·.lookup key)

def strings? (json : Json) : Option (List String) := json.items?.bind (·.mapM str?)

/-- The number whose decimal numeral a text is. -/
def ofNumeral? (text : String) : Option Nat :=
  match readNumber? text.toList with
  | some (n, []) => some n
  | _ => none

theorem ofNumeral?_toString (n : Nat) : ofNumeral? (toString n) = some n := by
  have hends : EndsNumber [] := fun _ hc => nomatch hc
  have hread := readNumber?_toDigits n hends
  rw [List.append_nil] at hread
  rw [ofNumeral?, Nat.toString_eq_repr, Nat.toList_repr, hread]

theorem strings?_arr (names : List String) : strings? (.arr (names.map .str)) = some names :=
  Text.mapM_map_eq_some fun _ _ => rfl

end Json

/-- What a rank document tells: the ranks by name, the names by rank, the highest rank, and the
cycles. -/
structure RankDocument where
  ranks : List (String × Nat)
  levels : List (Nat × List String)
  maxRank : Nat
  cycles : List (List String)
  deriving Repr, DecidableEq

namespace RankDocument

def rankOfField? (field : String × Json) : Option (String × Nat) :=
  field.2.num?.map (field.1, ·)

def levelOfField? (field : String × Json) : Option (Nat × List String) := do
  return (← Json.ofNumeral? field.1, ← field.2.strings?)

/-- What a JSON value tells if it is a rank document. -/
def ofJson? (document : Json) : Option RankDocument := do
  let ranks ← (← document.field? "ranks").fields?
  let levels ← (← document.field? "levels").fields?
  let maxRank ← (← document.field? "max_rank").num?
  let cycles ← (← document.field? "cycles").items?
  return ⟨← ranks.mapM rankOfField?, ← levels.mapM levelOfField?, maxRank,
    ← cycles.mapM Json.strings?⟩

def ofText? (text : String) : Option RankDocument := (Json.ofText? text).bind ofJson?

theorem rankOfField?_num (pair : String × Nat) : rankOfField? (pair.1, .num pair.2) = some pair :=
  rfl

theorem levelOfField?_arr (level : Nat × List String) :
    levelOfField? (toString level.1, .arr (level.2.map .str)) = some level := by
  rw [levelOfField?, Json.ofNumeral?_toString, Json.strings?_arr]
  rfl

/-- The document of any ranks and cycles is read back. -/
theorem ofText?_document (ranks : Ranks) (cycles : List (List String)) :
    ofText? (ranks.document cycles).pretty =
      some ⟨ranks.byName, ranks.levels, ranks.maxRank, cycles⟩ := by
  have hranks := Text.mapM_map_eq_some fun pair (_ : pair ∈ ranks.byName) => rankOfField?_num pair
  have hlevels := Text.mapM_map_eq_some fun level (_ : level ∈ ranks.levels) =>
    levelOfField?_arr level
  have hcycles := Text.mapM_map_eq_some fun names (_ : names ∈ cycles) => Json.strings?_arr names
  rw [ofText?, Json.ofText?_pretty, Option.bind_some, Ranks.document, ofJson?]
  simp only [Json.field?, Json.fields?, Json.items?, Json.num?, List.lookup_cons, String.reduceBEq,
    Option.bind_some, Option.bind_eq_bind, Option.pure_def, hranks, hlevels, hcycles]

/-- Ranks and cycles that differ have different documents. -/
theorem document_injective {ranks others : Ranks} {cycles otherCycles : List (List String)}
    (heq : (ranks.document cycles).pretty = (others.document otherCycles).pretty) :
    ranks = others ∧ cycles = otherCycles := by
  have hread := ofText?_document ranks cycles
  rw [heq, ofText?_document] at hread
  obtain ⟨hbyName, -, -, hcycles⟩ := RankDocument.mk.inj (Option.some.inj hread)
  exact ⟨congrArg Ranks.mk hbyName.symm, hcycles.symm⟩

end RankDocument

namespace Graph

open Lookup

/-- The pairs of the ranks are the nodes, each with the rank that is looked up for it. -/
theorem mem_byName_iff_rank? {graph : Graph} (hgraph : graph.WellFormed) {name : String}
    {rank : Nat} : (name, rank) ∈ graph.ranks.byName ↔
      name ∈ graph.names ∧ graph.ranks.rank? name = some rank := by
  rw [mem_byName hgraph, rank?_eq_some_iff hgraph, and_self_left]

/-- From the text of the rank document of a graph, its JSON value is read back, and from that the
rank of every node, the members of every level in ascending order of levels, the highest rank and
the cycles. Ranks and cycles have the same document only if they are the same. -/
theorem document_tells_ranks (graph : Graph) (hgraph : graph.WellFormed) :
    Json.ofText? (graph.ranks.document graph.cycles).pretty =
      some (graph.ranks.document graph.cycles) ∧
    (∃ document, RankDocument.ofText? (graph.ranks.document graph.cycles).pretty = some document ∧
      document.ranks.Pairwise (fun lower upper => lower.1 < upper.1) ∧
      (∀ name rank, (name, rank) ∈ document.ranks ↔
        name ∈ graph.names ∧ graph.ranks.rank? name = some rank) ∧
      document.levels.Pairwise (fun lower upper => lower.1 < upper.1) ∧
      (∀ rank names, (rank, names) ∈ document.levels ↔
        names ≠ [] ∧ graph.ranks.level rank = names) ∧
      document.maxRank = graph.ranks.maxRank ∧ document.cycles = graph.cycles) ∧
    ∀ (ranks others : Ranks) (cycles otherCycles : List (List String)),
      (ranks.document cycles).pretty = (others.document otherCycles).pretty ↔
        ranks = others ∧ cycles = otherCycles := by
  refine ⟨Json.ofText?_pretty _, ⟨_, RankDocument.ofText?_document _ _, pairwise_byName hgraph,
    fun _ _ => mem_byName_iff_rank? hgraph, Ranks.pairwise_levels _,
    fun _ _ => Ranks.mem_levels, rfl, rfl⟩, ?_⟩
  intro ranks others cycles otherCycles
  constructor
  · exact RankDocument.document_injective
  · rintro ⟨rfl, rfl⟩
    rfl

/-- Two nodes with odd names on a cycle, and one that both lead to. -/
def oddlyNamed : Graph where
  nodes := ["\"", "\\\x01\n", "😀\x7f"].map (⟨·, false⟩)
  edges := [("\"", "\\\x01\n"), ("\\\x01\n", "\""), ("\"", "😀\x7f"), ("\\\x01\n", "😀\x7f")]

theorem document_oddlyNamed : oddlyNamed.WellFormed ∧ ∃ document,
    RankDocument.ofText? (oddlyNamed.ranks.document oddlyNamed.cycles).pretty = some document ∧
    ("\\\x01\n", 1) ∈ document.ranks ∧ (0, ["😀\x7f"]) ∈ document.levels ∧
    document.maxRank = 2 ∧ document.cycles = [["\"", "\\\x01\n"]] := by
  have hgraph : oddlyNamed.WellFormed := ⟨by decide, by decide, by decide⟩
  have hranks : oddlyNamed.ranks = ⟨[("\"", 2), ("\\\x01\n", 1), ("😀\x7f", 0)]⟩ := by
    simp +decide [oddlyNamed, ranks, Ranks.ofList, rankWalk, names, successors, RankWalk.visit,
      RankWalk.follow, RankWalk.start, RankWalk.finish, List.lookup_cons, List.mergeSort,
      List.MergeSort.Internal.splitInTwo]
  have hcycles : oddlyNamed.cycles = [["\"", "\\\x01\n"]] := by
    simp +decide [oddlyNamed, cycles, components, isCyclic, hasEdge, names, successors,
      Search.visit, Search.follow, Search.start, Search.discover, Search.next, Search.finish,
      Search.close, List.lookup_cons, List.filter_cons, List.mergeSort,
      List.MergeSort.Internal.splitInTwo]
  obtain ⟨-, ⟨document, hread, -, hmem, -, hlevel, hmax, hcycle⟩, -⟩ :=
    document_tells_ranks oddlyNamed hgraph
  refine ⟨hgraph, document, hread, (hmem _ _).mpr ⟨by decide, by rw [hranks]; decide⟩,
    (hlevel _ _).mpr ⟨by decide, by rw [hranks]; decide⟩, ?_, hcycle.trans hcycles⟩
  rw [hmax, hranks]
  decide

end Graph

end OberonImports
