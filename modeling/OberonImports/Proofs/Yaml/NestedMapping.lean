import OberonImports.Proofs.Yaml.BlockMapping
import OberonImports.Yaml.Document

/-!
# The document of a nested mapping

A nested mapping is a document of one mapping with one key, whose value is a mapping with the entries
as scalars in turn, or an empty scalar if there are none. If a key is too long, the document breaks
off there.
-/

namespace OberonImports.Yaml

variable {entry : String × String} {entries : List (String × String)} {name : String}

/-- A text as an untagged scalar of a style. -/
def untagged (text : String) (style : ScalarStyle) : Scalar := ⟨text, none, style⟩

/-- The scalars of an entry. -/
def entryScalars (entry : String × String) : List Scalar :=
  [untagged entry.1 (keyStyle entry.1.toList), untagged entry.2 .singleQuoted]

/-- The events of the entries of an open mapping, and the ends of the mapping, of that around it, of
the document and of the text, unless a key is too long. -/
def restEvents (entries : List (String × String)) : List EventKind :=
  ((knownEntries entries).flatMap entryScalars).map (.scalar none ·) ++
    if knownEntries entries = entries then [.mappingEnd, .mappingEnd, .documentEnd, .streamEnd]
    else []

/-- The events behind the key of a nested mapping. -/
def nestedEvents : List (String × String) → List EventKind
  | [] => [.scalar none (untagged "" .plain), .mappingEnd, .documentEnd, .streamEnd]
  | entry :: entries =>
      if IsShort entry.1.toList then .mappingStart none none :: restEvents (entry :: entries)
      else [.scalar none (untagged entry.1 (keyStyle entry.1.toList))]

theorem restKinds_cons_of_short (hshort : IsShort entry.1.toList) :
    restKinds (entry :: entries) = entryKinds entry ++ restKinds entries := by
  simp [restKinds, knownEntries_cons_of_short hshort]

theorem restEvents_cons_of_short (hshort : IsShort entry.1.toList) :
    restEvents (entry :: entries) =
      (entryScalars entry).map (.scalar none ·) ++ restEvents entries := by
  simp [restEvents, knownEntries_cons_of_short hshort]

namespace Assembler

variable {expectation next : Expectation} {pending : List Expectation}
  {handles : List (String × TagOctets)} {token second : Token} {tokens : List Token}
  {text : String} {style : ScalarStyle} {event : Event} {behind assembler : Assembler} {fuel : Nat}

theorem run_succ (hstep : assembler.step = some (event, behind)) :
    run (fuel + 1) assembler = event :: run fuel behind := by
  rw [run, hstep]

/-! ### Nodes -/

theorem node_scalar (inBlock indentless : Bool) (hkind : token.kind = .scalar text style) :
    node ⟨expectation, next :: pending, handles, token :: tokens⟩ inBlock indentless =
      some (⟨.scalar none (untagged text style), token.start⟩,
        ⟨next, pending, handles, tokens⟩) := by
  simp [node, peek?, hkind, properties, anchor, tag, kind?, fullTag?, advance, popping, tell,
    untagged]

/-- A key of a mapping, wherever it is expected. -/
theorem blockMappingKey_scalar (hkey : token.kind = .key) (hkind : second.kind = .scalar text style) :
    blockMappingKey ⟨expectation, pending, handles, token :: second :: tokens⟩ =
      some (⟨.scalar none (untagged text style), second.start⟩,
        ⟨.blockMappingValue, pending, handles, tokens⟩) := by
  simp [blockMappingKey, peek?, hkey, nodeOrEmpty, kind?, advance, hkind, pushing,
    node_scalar true true hkind]

theorem blockMappingValue_scalar (hvalue : token.kind = .value)
    (hkind : second.kind = .scalar text style) :
    blockMappingValue ⟨expectation, pending, handles, token :: second :: tokens⟩ =
      some (⟨.scalar none (untagged text style), second.start⟩,
        ⟨.blockMappingKey, pending, handles, tokens⟩) := by
  simp [blockMappingValue, peek?, hvalue, nodeOrEmpty, kind?, advance, hkind, pushing,
    node_scalar true true hkind]

theorem blockMappingKey_end (hkind : token.kind = .blockEnd) :
    blockMappingKey ⟨expectation, next :: pending, handles, token :: tokens⟩ =
      some (⟨.mappingEnd, token.start⟩, ⟨next, pending, handles, tokens⟩) := by
  simp [blockMappingKey, peek?, hkind, advance, popping, tell]

theorem run_of_step_eq_none (hstep : assembler.step = none) : run fuel assembler = [] := by
  cases fuel with
  | zero => rfl
  | succ fuel => rw [run, hstep]

/-- Without tokens, no further event is told in a mapping. -/
theorem run_blockMappingKey_nil :
    run fuel ⟨.blockMappingKey, pending, handles, []⟩ = [] :=
  run_of_step_eq_none rfl

/-! ### Ends -/

/-- Behind the node of a document that ends with the text. -/
theorem map_kind_run_documentEnd (htoken : token.kind = .streamEnd) (hfuel : 3 ≤ fuel) :
    (run fuel ⟨.documentEnd, [], handles, [token]⟩).map (·.kind) = [.documentEnd, .streamEnd] := by
  obtain ⟨fuel, rfl⟩ := Nat.exists_eq_add_of_le' hfuel
  have hend : step ⟨.documentEnd, [], handles, [token]⟩ =
      some (⟨.documentEnd, token.start⟩, ⟨.document, [], [], [token]⟩) := by
    simp [step, documentEnd, peek?, htoken, expecting, tell]
  have hstream : step ⟨.document, [], [], [token]⟩ =
      some (⟨.streamEnd, token.start⟩, ⟨.nothing, [], [], []⟩) := by
    simp [step, documentStart, peek?, htoken, advance, expecting, tell]
  rw [run_succ hend, run_succ hstream, run_of_step_eq_none rfl]
  rfl

theorem map_kind_run_blockEnd (hend : token.kind = .blockEnd) (hstream : second.kind = .streamEnd)
    (hfuel : 4 ≤ fuel) :
    (run fuel ⟨.blockMappingKey, [.documentEnd], handles, [token, second]⟩).map (·.kind) =
      [.mappingEnd, .documentEnd, .streamEnd] := by
  obtain ⟨fuel, rfl⟩ : ∃ rest, fuel = rest + 1 := Nat.exists_eq_add_of_le' (by omega)
  have hstep : step ⟨.blockMappingKey, [.documentEnd], handles, [token, second]⟩ =
      some (⟨.mappingEnd, token.start⟩, ⟨.documentEnd, [], handles, [second]⟩) :=
    blockMappingKey_end hend
  rw [run_succ hstep, List.map_cons, map_kind_run_documentEnd hstream (by omega)]

/-! ### Entries -/

theorem exists_of_map_kind_entry {kinds : List TokenKind}
    (htokens : tokens.map (·.kind) = entryKinds entry ++ kinds) :
    ∃ key keyScalar value valueScalar rest,
      tokens = key :: keyScalar :: value :: valueScalar :: rest ∧ key.kind = .key ∧
      keyScalar.kind = .scalar entry.1 (keyStyle entry.1.toList) ∧ value.kind = .value ∧
      valueScalar.kind = .scalar entry.2 .singleQuoted ∧ rest.map (·.kind) = kinds := by
  simp only [entryKinds, List.cons_append, List.nil_append, List.map_eq_cons_iff] at htokens
  obtain ⟨key, _, rfl, hkey, keyScalar, _, rfl, hkeyScalar, value, _, rfl, hvalue, valueScalar, rest,
    rfl, hvalueScalar, hrest⟩ := htokens
  exact ⟨key, keyScalar, value, valueScalar, rest, rfl, hkey, hkeyScalar, hvalue, hvalueScalar,
    hrest⟩

/-- Two events are told of the first entry, whether or not others precede it. -/
theorem run_entry {key keyScalar value valueScalar : Token} {start : Assembler}
    (hstart : start.step = blockMappingKey
      ⟨expectation, pending, handles, key :: keyScalar :: value :: valueScalar :: tokens⟩)
    (hkey : key.kind = .key) (hkeyScalar : keyScalar.kind = .scalar entry.1 (keyStyle entry.1.toList))
    (hvalue : value.kind = .value) (hvalueScalar : valueScalar.kind = .scalar entry.2 .singleQuoted) :
    (run (fuel + 2) start).map (·.kind) = (entryScalars entry).map (.scalar none ·) ++
      (run fuel ⟨.blockMappingKey, pending, handles, tokens⟩).map (·.kind) := by
  have hfirst := hstart.trans (blockMappingKey_scalar hkey hkeyScalar)
  have hsecond : step ⟨.blockMappingValue, pending, handles, value :: valueScalar :: tokens⟩ = _ :=
    blockMappingValue_scalar hvalue hvalueScalar
  rw [run_succ hfirst, run_succ hsecond]
  rfl

/-- By induction on the entries: each is told by two scalars. -/
theorem map_kind_run_rest (htokens : tokens.map (·.kind) = restKinds entries)
    (hfuel : tokens.length + 2 ≤ fuel) :
    (run fuel ⟨.blockMappingKey, [.blockMappingKey, .documentEnd], handles, tokens⟩).map (·.kind) =
      restEvents entries := by
  induction entries generalizing tokens fuel with
  | nil =>
      have hends : tokens.map (·.kind) = [.blockEnd, .blockEnd, .streamEnd] := htokens
      simp only [List.map_eq_cons_iff, List.map_eq_nil_iff] at hends
      obtain ⟨first, _, rfl, hfirst, second, _, rfl, hsecond, last, _, rfl, hlast, rfl⟩ := hends
      simp only [List.length_cons, List.length_nil] at hfuel
      obtain ⟨fuel, rfl⟩ : ∃ rest, fuel = rest + 1 := Nat.exists_eq_add_of_le' (by omega)
      have hstep : step ⟨.blockMappingKey, [.blockMappingKey, .documentEnd], handles,
          [first, second, last]⟩ = some (⟨.mappingEnd, first.start⟩,
            ⟨.blockMappingKey, [.documentEnd], handles, [second, last]⟩) :=
        blockMappingKey_end hfirst
      rw [run_succ hstep, List.map_cons, map_kind_run_blockEnd hsecond hlast (by omega)]
      rfl
  | cons entry entries ih =>
      by_cases hshort : IsShort entry.1.toList
      · rw [restKinds_cons_of_short hshort] at htokens
        obtain ⟨key, keyScalar, value, valueScalar, rest, rfl, hkey, hkeyScalar, hvalue,
          hvalueScalar, hrest⟩ := exists_of_map_kind_entry htokens
        simp only [List.length_cons] at hfuel
        obtain ⟨fuel, rfl⟩ : ∃ rest, fuel = rest + 2 := Nat.exists_eq_add_of_le' (by omega)
        rw [run_entry rfl hkey hkeyScalar hvalue hvalueScalar, ih hrest (by omega),
          restEvents_cons_of_short hshort]
      · have hnone : tokens = [] := by
          simpa [restKinds, knownEntries_cons_of_not_short hshort] using htokens
        rw [hnone, run_blockMappingKey_nil]
        simp [restEvents, knownEntries_cons_of_not_short hshort]

/-- Behind the colon of the first key: the mapping below has its tokens, or there is none. -/
theorem map_kind_run_nested (hvalue : token.kind = .value)
    (htokens : tokens.map (·.kind) = nestedKinds entries) (hfuel : tokens.length + 3 ≤ fuel) :
    (run fuel ⟨.blockMappingValue, [.documentEnd], handles, token :: tokens⟩).map (·.kind) =
      nestedEvents entries := by
  obtain ⟨fuel, rfl⟩ : ∃ rest, fuel = rest + 1 := Nat.exists_eq_add_of_le' (by omega)
  cases entries with
  | nil =>
      have hends : tokens.map (·.kind) = [.blockEnd, .streamEnd] := htokens
      simp only [List.map_eq_cons_iff, List.map_eq_nil_iff] at hends
      obtain ⟨first, _, rfl, hfirst, last, _, rfl, hlast, rfl⟩ := hends
      have hstep : step ⟨.blockMappingValue, [.documentEnd], handles, [token, first, last]⟩ =
          some (⟨.scalar none (untagged "" .plain), token.stop⟩,
            ⟨.blockMappingKey, [.documentEnd], handles, [first, last]⟩) := by
        simp [step, blockMappingValue, peek?, hvalue, nodeOrEmpty, kind?, advance, hfirst, expecting,
          tellEmpty, tell, untagged]
      simp only [List.length_cons, List.length_nil] at hfuel
      rw [run_succ hstep, List.map_cons, map_kind_run_blockEnd hfirst hlast (by omega)]
      rfl
  | cons entry entries =>
      by_cases hshort : IsShort entry.1.toList
      · rw [nestedKinds, if_pos hshort, restKinds_cons_of_short hshort, List.map_eq_cons_iff]
          at htokens
        obtain ⟨opening, rest, rfl, hopening, hrest⟩ := htokens
        obtain ⟨key, keyScalar, value, valueScalar, rest, rfl, hkey, hkeyScalar, hvalue',
          hvalueScalar, hrest⟩ := exists_of_map_kind_entry hrest
        simp only [List.length_cons] at hfuel
        obtain ⟨fuel, rfl⟩ : ∃ rest, fuel = rest + 2 := Nat.exists_eq_add_of_le' (by omega)
        have hstep : step ⟨.blockMappingValue, [.documentEnd], handles,
            token :: opening :: key :: keyScalar :: value :: valueScalar :: rest⟩ =
              some (⟨.mappingStart none none, opening.start⟩,
                ⟨.blockMappingFirst, [.blockMappingKey, .documentEnd], handles,
                  opening :: key :: keyScalar :: value :: valueScalar :: rest⟩) := by
          simp [step, blockMappingValue, peek?, hvalue, nodeOrEmpty, kind?, advance, hopening, node,
            properties, anchor, tag, fullTag?, pushing, expecting, tell]
        rw [run_succ hstep, List.map_cons, run_entry rfl hkey hkeyScalar hvalue' hvalueScalar,
          map_kind_run_rest hrest (by omega), nestedEvents, if_pos hshort,
          restEvents_cons_of_short hshort]
      · rw [nestedKinds, if_neg hshort] at htokens
        simp only [List.map_eq_cons_iff, List.map_eq_nil_iff] at htokens
        obtain ⟨scalar, _, rfl, hscalar, rfl⟩ := htokens
        have hstep : step ⟨.blockMappingValue, [.documentEnd], handles, [token, scalar]⟩ = _ :=
          blockMappingValue_scalar hvalue hscalar
        rw [run_succ hstep, run_blockMappingKey_nil, nestedEvents, if_neg hshort]
        rfl

end Assembler

/-- The events of the tokens of a nested mapping. -/
theorem map_kind_events {tokens : List Token} (htokens : tokens.map (·.kind) =
      [.streamStart, .blockMappingStart, .key, .scalar name .plain, .value] ++
        nestedKinds entries) :
    (events tokens).map (·.kind) =
      [.streamStart, .documentStart, .mappingStart none none, .scalar none (untagged name .plain)] ++
        nestedEvents entries := by
  simp only [List.cons_append, List.nil_append, List.map_eq_cons_iff] at htokens
  obtain ⟨stream, _, rfl, hstream, opening, _, rfl, hopening, key, _, rfl, hkey, scalar, _, rfl,
    hscalar, value, rest, rfl, hvalue, hrest⟩ := htokens
  let front := opening :: key :: scalar :: value :: rest
  have hfirst : (Assembler.start (stream :: front)).step =
      some (⟨.streamStart, stream.start⟩, ⟨.firstDocument, [], [], front⟩) := rfl
  have hsecond : Assembler.step ⟨.firstDocument, [], [], front⟩ =
      some (⟨.documentStart, opening.start⟩,
        ⟨.documentNode, [.documentEnd], Assembler.standardHandles, front⟩) := by
    simp [Assembler.step, Assembler.documentStart, Assembler.peek?, Assembler.isBoundary, front,
      hopening, Assembler.pushing, Assembler.expecting, Assembler.tell]
  have hthird : Assembler.step ⟨.documentNode, [.documentEnd], Assembler.standardHandles, front⟩ =
      some (⟨.mappingStart none none, opening.start⟩,
        ⟨.blockMappingFirst, [.documentEnd], Assembler.standardHandles, front⟩) := by
    simp [Assembler.step, Assembler.node, Assembler.peek?, front, hopening, Assembler.properties,
      Assembler.anchor, Assembler.tag, Assembler.kind?, Assembler.fullTag?, Assembler.expecting,
      Assembler.tell]
  have hfourth : Assembler.step
      ⟨.blockMappingFirst, [.documentEnd], Assembler.standardHandles, front⟩ = _ :=
    Assembler.blockMappingKey_scalar hkey hscalar
  obtain ⟨fuel, hfuel⟩ : ∃ fuel, 6 * (stream :: front).length + 12 = fuel + 4 := ⟨_, rfl⟩
  have hlength : rest.length + 3 ≤ fuel := by
    simp only [front, List.length_cons] at hfuel
    omega
  rw [events, hfuel, Assembler.run_succ hfirst, Assembler.run_succ hsecond,
    Assembler.run_succ hthird, Assembler.run_succ hfourth]
  simp only [List.map_cons, Assembler.map_kind_run_nested hvalue hrest hlength]
  rfl

/-! ### Documents -/

namespace Document

/-- The node event of an event without an anchor. -/
def nodeOf? : EventKind → Option NodeEvent
  | .scalar none scalar => some (.scalar scalar)
  | .mappingStart none tag => some (.mappingStart tag)
  | .mappingEnd => some .mappingEnd
  | _ => none

variable {events rest : List Event} {nodes : List NodeEvent}

/-- Events without anchors are added one after the other. -/
theorem read_append (reading : Reading) (hnodes : events.map (nodeOf? ·.kind) = nodes.map some) :
    ∃ placed : List PlacedEvent, placed.map (·.event) = nodes ∧ ∀ rest,
      read reading (events ++ rest) =
        read { reading with events := placed.reverse ++ reading.events } rest := by
  induction events generalizing nodes reading with
  | nil =>
      obtain rfl : nodes = [] := by simpa using hnodes.symm
      exact ⟨[], rfl, fun _ => rfl⟩
  | cons event events ih =>
      obtain ⟨kind, mark⟩ := event
      obtain ⟨node, others, rfl, hnode, hothers⟩ := List.map_eq_cons_iff.mp hnodes.symm
      obtain ⟨placed, hplaced, hread⟩ := ih (reading.add node mark) hothers.symm
      refine ⟨⟨node, mark⟩ :: placed, by rw [List.map_cons, hplaced], fun rest => ?_⟩
      have hstep : read reading (⟨kind, mark⟩ :: (events ++ rest)) =
          read (reading.add node mark) (events ++ rest) := by
        have hnode : nodeOf? kind = some node := hnode.symm
        cases kind with
        | scalar anchor scalar =>
            cases anchor with
            | none =>
                cases hnode
                rfl
            | some anchor => cases hnode
        | mappingStart anchor tag =>
            cases anchor with
            | none =>
                cases hnode
                rfl
            | some anchor => cases hnode
        | mappingEnd =>
            cases hnode
            rfl
        | _ => cases hnode
      rw [List.cons_append, hstep, hread]
      simp [Reading.add]

/-- The document of a text whose events are told: its nodes, and whether it comes to its end with the
text. -/
theorem ofText_of_events {text : String} {front back : List EventKind}
    (hevents : (Yaml.events (Yaml.tokens text.toList)).map (·.kind) =
      .streamStart :: .documentStart :: (front ++ back))
    (hnodes : front.map nodeOf? = nodes.map some)
    (hback : back = [.documentEnd, .streamEnd] ∨ back = []) :
    (ofText text).events.map (·.event) = nodes ∧
      (back = [.documentEnd, .streamEnd] → (ofText text).ended = true ∧
        (ofText text).isLast = true) := by
  simp only [List.map_eq_cons_iff, List.map_eq_append_iff] at hevents
  obtain ⟨⟨_, mark⟩, _, htext, rfl, ⟨_, start⟩, _, rfl, rfl, first, second, rfl, hfirst, hsecond⟩ :=
    hevents
  rw [← hfirst, List.map_map] at hnodes
  obtain ⟨placed, hplaced, hread⟩ := read_append .start hnodes
  have hdocument : ofText text = read ⟨placed.reverse, [], []⟩ second := by
    rw [ofText, htext]
    refine Eq.trans rfl ((hread second).trans ?_)
    simp [Reading.start]
  rcases hback with rfl | rfl
  · simp only [List.map_eq_cons_iff, List.map_eq_nil_iff] at hsecond
    obtain ⟨⟨_, stop⟩, _, rfl, rfl, ⟨_, last⟩, _, rfl, rfl, rfl⟩ := hsecond
    simp [hdocument, read, Reading.document, hplaced]
  · obtain rfl := List.map_eq_nil_iff.mp hsecond
    simp [hdocument, read, Reading.document, hplaced]

end Document

/-- The node events behind the key of a nested mapping. -/
def nestedNodes : List (String × String) → List NodeEvent
  | [] => [.scalar (untagged "" .plain), .mappingEnd]
  | entry :: entries =>
      if IsShort entry.1.toList then
        .mappingStart none ::
          (((knownEntries (entry :: entries)).flatMap entryScalars).map .scalar ++
            if knownEntries (entry :: entries) = entry :: entries then [.mappingEnd, .mappingEnd]
            else [])
      else [.scalar (untagged entry.1 (keyStyle entry.1.toList))]

theorem knownEntries_eq_self :
    knownEntries entries = entries ↔ ∀ entry ∈ entries, IsShort entry.1.toList := by
  induction entries with
  | nil => simp [knownEntries]
  | cons entry entries ih =>
      by_cases hshort : IsShort entry.1.toList
      · rw [knownEntries_cons_of_short hshort, List.cons_eq_cons, ih, List.forall_mem_cons]
        simp [hshort]
      · rw [knownEntries_cons_of_not_short hshort]
        simp [hshort]

/-- The events behind the key of a nested mapping are those of its nodes, and the ends of the document
and of the text unless a key is too long. -/
theorem exists_nestedEvents_eq (entries : List (String × String)) : ∃ front back,
    nestedEvents entries = front ++ back ∧
    front.map Document.nodeOf? = (nestedNodes entries).map some ∧
    (back = [.documentEnd, .streamEnd] ∨ back = []) ∧
    ((∀ entry ∈ entries, IsShort entry.1.toList) → back = [.documentEnd, .streamEnd]) := by
  have hscalars : ∀ scalars : List Scalar, (scalars.map (EventKind.scalar none ·)).map
      Document.nodeOf? = (scalars.map NodeEvent.scalar).map some := by
    intro scalars
    rw [List.map_map, List.map_map]
    rfl
  cases entries with
  | nil => exact ⟨[.scalar none (untagged "" .plain), .mappingEnd], _, rfl, rfl, .inl rfl, fun _ => rfl⟩
  | cons entry entries =>
      rw [nestedEvents, nestedNodes, restEvents, ← knownEntries_eq_self]
      by_cases hshort : IsShort entry.1.toList
      · rw [if_pos hshort, if_pos hshort]
        by_cases hall : knownEntries (entry :: entries) = entry :: entries
        · rw [if_pos hall, if_pos hall]
          refine ⟨.mappingStart none none :: (((knownEntries (entry :: entries)).flatMap
            entryScalars).map (.scalar none ·) ++ [.mappingEnd, .mappingEnd]), _, ?_, ?_, .inl rfl,
            fun _ => rfl⟩
          · simp
          · simp only [List.map_cons, List.map_append, hscalars]
            rfl
        · rw [if_neg hall, if_neg hall]
          refine ⟨_, [], (List.append_nil _).symm, ?_, .inr rfl, fun hshorts => absurd hshorts hall⟩
          simp only [List.map_cons, List.map_append, hscalars]
          rfl
      · rw [if_neg hshort, if_neg hshort]
        refine ⟨_, [], (List.append_nil _).symm, rfl, .inr rfl, fun hshorts => ?_⟩
        exact absurd (knownEntries_eq_self.mp hshorts entry List.mem_cons_self) hshort

/-- The document of a nested mapping. It comes to its end with the text unless a key is too long. -/
theorem document_nestedMapping {width : Nat} (hname : isWord name.toList = true)
    (hshort : IsShort name.toList) (hwidth : 0 < width)
    (hlines : ∀ entry ∈ entries, IsLineEntry entry) :
    (Document.ofText (nestedMapping width name entries)).events.map (·.event) =
      [.mappingStart none, .scalar (untagged name .plain)] ++ nestedNodes entries ∧
    ((∀ entry ∈ entries, IsShort entry.1.toList) →
      (Document.ofText (nestedMapping width name entries)).ended = true ∧
      (Document.ofText (nestedMapping width name entries)).isLast = true) := by
  have hevents := map_kind_events (map_kind_tokens_nestedMapping hname hshort hwidth hlines)
  obtain ⟨front, back, hnested, hfront, hback, hcomplete⟩ := exists_nestedEvents_eq entries
  rw [hnested, ← List.append_assoc] at hevents
  let opening : List EventKind := [.mappingStart none none, .scalar none (untagged name .plain)]
  have hnodes : (opening ++ front).map Document.nodeOf? = ([NodeEvent.mappingStart none,
      .scalar (untagged name .plain)] ++ nestedNodes entries).map some := by
    rw [List.map_append, hfront]
    rfl
  obtain ⟨hdocument, hended⟩ := Document.ofText_of_events hevents hnodes hback
  exact ⟨hdocument, fun hshorts => hended (hcomplete hshorts)⟩

end OberonImports.Yaml
