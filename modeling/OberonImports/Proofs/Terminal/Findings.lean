import OberonImports.Path
import OberonImports.Proofs.Text.Pieces
import OberonImports.Terminal.Message
import OberonImports.Text.Lines

/-!
# Reading findings back

What the terminal is told of undeclared imports and of cycles can be read back, with or without
colours. Styles are undone first. The names of undeclared imports stand between commas, which none
of them holds, and no declared name holds the signs of cycles. The whole output is read back if no
undeclared import holds a line feed. One that does may look like the heading of cycles.
-/

namespace OberonImports.Terminal

open Text

variable {colours : Bool} {style : Style} {opening text : List Char} {names : List String}
  {cycles : List (List String)}

/-! ### Styled texts -/

/-- A text without the opening sequences that follow its closing sequences. -/
def unreopen (opening : List Char) : Nat → List Char → List Char
  | _, [] => []
  | 0, c :: text =>
      if closing.isPrefixOf (c :: text) then c :: unreopen opening 3 text
      else c :: unreopen opening 0 text
  | 1, c :: text => c :: unreopen opening 0 (text.drop opening.length)
  | pending + 2, c :: text => c :: unreopen opening (pending + 1) text
termination_by _ text => text.length
decreasing_by all_goals simp only [List.length_cons, List.length_drop]; omega

/-- The text that has been painted. -/
def unpaint? (colours : Bool) (style : Style) (text : List Char) : Option (List Char) :=
  if colours then do
    let inner ← dropMark? style.opening text
    let inner ← dropEnd? closing inner
    return unreopen style.opening 0 inner
  else some text

/-- The sequences before and behind a painted text. -/
def marks (colours : Bool) (style : Style) : List Char × List Char :=
  if colours then (style.opening, closing) else ([], [])

/-- Nothing is put in before a closing sequence is complete. -/
theorem take_reopen (pending count : Nat)
    (hcount : count ≤ pending ∨ pending = 0 ∧ count ≤ 4) :
    (reopen opening pending text).take count = text.take count := by
  induction text generalizing pending count with
  | nil => rw [reopen]
  | cons c text ih =>
      cases count with
      | zero => simp
      | succ count =>
          match pending with
          | 0 =>
              rw [reopen]
              split
              · exact congrArg (c :: ·) (ih 3 count (by omega))
              · exact congrArg (c :: ·) (ih 0 count (by omega))
          | 1 =>
              obtain rfl : count = 0 := by omega
              simp [reopen]
          | pending + 2 =>
              exact congrArg (c :: ·) (ih (pending + 1) count (by omega))

theorem isPrefixOf_closing_cons {first second : List Char} (c : Char)
    (hsame : first.take 3 = second.take 3) :
    closing.isPrefixOf (c :: first) = closing.isPrefixOf (c :: second) := by
  rw [Bool.eq_iff_iff, List.isPrefixOf_iff_prefix, List.isPrefixOf_iff_prefix,
    List.prefix_iff_eq_take, List.prefix_iff_eq_take]
  simp [closing, hsame]

theorem unreopen_reopen (pending : Nat) (text : List Char) :
    unreopen opening pending (reopen opening pending text) = text := by
  fun_induction reopen opening pending text with
  | case1 => rw [unreopen]
  | case2 c text hclosing ih =>
      rw [unreopen, isPrefixOf_closing_cons c (take_reopen 3 3 (by omega)), if_pos hclosing, ih]
  | case3 c text hplain ih =>
      rw [unreopen, isPrefixOf_closing_cons c (take_reopen 0 3 (by omega)), if_neg hplain, ih]
  | case4 c text ih => rw [List.cons_append, unreopen, List.drop_left, ih]
  | case5 pending c text ih => rw [unreopen, ih]

theorem unpaint?_paint (colours : Bool) (style : Style) (text : String) :
    unpaint? colours style (paint colours style text).toList = some text.toList := by
  cases colours with
  | false => rfl
  | true => simp [unpaint?, paint, dropMark?_append, dropEnd?_append, unreopen_reopen]

theorem reopen_of_not_mem (hplain : '\x1b' ∉ text) : reopen opening 0 text = text := by
  induction text with
  | nil => rw [reopen]
  | cons c text ih =>
      rw [List.mem_cons, not_or] at hplain
      have hclosing : ¬ closing.isPrefixOf (c :: text) = true := by
        rw [List.isPrefixOf_iff_prefix, closing, List.cons_prefix_cons]
        exact fun hstart => hplain.1 hstart.1
      rw [reopen, if_neg hclosing, ih hplain.2]

/-- A text without escape characters is painted by putting it between two sequences. -/
theorem toList_paint {plain : String} (hplain : '\x1b' ∉ plain.toList) :
    (paint colours style plain).toList =
      (marks colours style).1 ++ plain.toList ++ (marks colours style).2 := by
  cases colours with
  | false => simp [paint, marks]
  | true => simp [paint, marks, reopen_of_not_mem hplain]

theorem not_mem_reopen {c : Char} (hopening : c ∉ opening) (pending : Nat) (htext : c ∉ text) :
    c ∉ reopen opening pending text := by
  fun_induction reopen opening pending text with
  | case1 => exact htext
  | case2 | case3 | case4 | case5 => simp_all

/-- Painting puts in characters of the two sequences only. -/
theorem not_mem_paint {c : Char} {plain : String} (hopening : c ∉ style.opening)
    (hclosing : c ∉ closing) (hplain : c ∉ plain.toList) :
    c ∉ (paint colours style plain).toList := by
  cases colours with
  | false => exact hplain
  | true => simp [paint, hopening, hclosing, not_mem_reopen hopening 0 hplain]

/-! ### Lines and numbers -/

theorem toList_unlines_cons (line : String) (lines : List String) :
    (unlines (line :: lines)).toList = line.toList ++ '\n' :: (unlines lines).toList := by
  simp [unlines]

theorem toList_unlines (lines : List String) :
    (unlines lines).toList = (lines.map fun line => line.toList ++ ['\n']).flatten := by
  induction lines with
  | nil => rfl
  | cons line lines ih => simp [toList_unlines_cons, ih]

theorem toList_unlines_append (lines more : List String) :
    (unlines (lines ++ more)).toList = (unlines lines).toList ++ (unlines more).toList := by
  simp [toList_unlines]

theorem not_mem_digits {c : Char} (hc : c.isDigit = false) (n : Nat) :
    c ∉ (toString n).toList := by
  rw [Nat.toString_eq_ofList_toDigits, String.toList_ofList]
  intro hmem
  have hdigit : c.isDigit = true := Nat.isDigit_of_mem_toDigits (by decide) (by decide) hmem
  cases hc.symm.trans hdigit

/-! ### Undeclared imports -/

/-- What stands between the number of undeclared imports and their names. -/
def unresolvedMark : List Char := " undeclared import(s): ".toList

/-- The names of undeclared imports that a text tells. -/
def readUnresolved? (colours : Bool) (text : List Char) : Option (List String) :=
  if text = [] then some []
  else do
    let (_, told) ← cut? unresolvedMark text
    let painted ← dropEnd? ['\n'] told
    let names ← unpaint? colours .faint painted
    return (pieces ", ".toList names).map String.ofList

/-- The sign in front of undeclared imports. -/
def unresolvedSign (colours : Bool) : List Char :=
  ("  " ++ paint colours (.ofColour .yellow) "?").toList

/-- The text in front of the names of undeclared imports. -/
def unresolvedFront (colours : Bool) (count : Nat) : List Char :=
  unresolvedSign colours ++ ' ' :: (toString count).toList

/-- The one line of undeclared imports. -/
theorem unresolved_eq (hne : names ≠ []) : unresolved colours names =
    ["  " ++ paint colours (.ofColour .yellow) "?" ++ " " ++ toString names.length
      ++ " undeclared import(s): " ++ paint colours .faint (", ".intercalate names)] := by
  cases names with
  | nil => exact absurd rfl hne
  | cons name names => rfl

theorem toList_unresolved (colours : Bool) (hne : names ≠ []) :
    (unlines (unresolved colours names)).toList =
      unresolvedFront colours names.length ++ unresolvedMark ++
        ((paint colours .faint (", ".intercalate names)).toList ++ ['\n']) := by
  have htext : ∀ sign count mark painted : String,
      (unlines [sign ++ " " ++ count ++ mark ++ painted]).toList =
        sign.toList ++ ' ' :: count.toList ++ mark.toList ++ (painted.toList ++ ['\n']) := by
    simp [unlines]
  rw [unresolved_eq hne]
  exact htext _ _ _ _

theorem not_mem_unresolved (colours : Bool) (hfeeds : ∀ name ∈ names, '\n' ∉ name.toList) :
    '\n' ∉ unresolvedFront colours names.length ++ unresolvedMark ++
      (paint colours .faint (", ".intercalate names)).toList := by
  have hsign : '\n' ∉ unresolvedSign colours := by
    cases colours <;> decide
  have hdigits : '\n' ∉ (toString names.length).toList := not_mem_digits (by decide) _
  have hnames : ∀ name ∈ names.map String.toList, '\n' ∉ name := by simpa using hfeeds
  have hjoined : '\n' ∉ (", ".intercalate names).toList := by
    rw [String.toList_intercalate]
    exact not_mem_intercalate (by decide) hnames
  have hpainted : '\n' ∉ (paint colours .faint (", ".intercalate names)).toList :=
    not_mem_paint (by decide) (by decide) hjoined
  simp only [unresolvedFront, List.mem_append, List.mem_cons, hsign, hdigits, hpainted, or_false,
    false_or]
  decide

theorem cut?_unresolvedMark (count : Nat) (rest : List Char) :
    cut? unresolvedMark (unresolvedFront colours count ++ unresolvedMark ++ rest) =
      some (unresolvedFront colours count, rest) := by
  have hsign : '(' ∉ unresolvedSign colours := by
    cases colours <;> decide
  have hdigits : '(' ∉ (toString count).toList := not_mem_digits (by decide) count
  have hfront : '(' ∉ unresolvedFront colours count := by
    rw [unresolvedFront, List.mem_append, List.mem_cons]
    simp only [hsign, hdigits, or_false, false_or]
    decide
  have hmark : unresolvedMark = " undeclared import".toList ++ '(' :: "s): ".toList := by decide
  apply cut?_append (by decide)
  rw [hmark]
  exact not_infix_append_dropLast (by decide) (by decide) (by decide) hfront

/-- Joined names that lack a character of the mark are found again. -/
theorem pieces_join {mark : String} {front back : List Char} {c : Char}
    (hmark : mark.toList = front ++ c :: back) (hback : back ≠ []) (hfront : c ∉ front)
    (hown : c ∉ back) (hne : names ≠ []) (hnames : ∀ name ∈ names, c ∉ name.toList) :
    (pieces mark.toList (mark.intercalate names).toList).map String.ofList = names := by
  have hparts : ∀ part ∈ names.map String.toList, c ∉ part := by simpa using hnames
  rw [String.toList_intercalate, hmark,
    pieces_intercalate hback hfront hown (by simpa using hne) hparts, List.map_map]
  simp

/-- The names of undeclared imports are read back from their line if they hold no comma. -/
theorem readUnresolved?_unresolved (colours : Bool) (hnames : ∀ name ∈ names, ',' ∉ name.toList) :
    readUnresolved? colours (unlines (unresolved colours names)).toList = some names := by
  by_cases hne : names = []
  · rw [hne]
    rfl
  · have htext := toList_unresolved colours hne
    have hsome : (unlines (unresolved colours names)).toList ≠ [] := by simp [htext]
    have hmark : ", ".toList = [] ++ ',' :: [' '] := rfl
    have hpieces := pieces_join hmark (by decide) (by decide) (by decide) hne hnames
    rw [readUnresolved?, if_neg hsome, htext, cut?_unresolvedMark]
    simp only [Option.bind_eq_bind, Option.bind_some, dropEnd?_append, unpaint?_paint, hpieces]
    rfl

/-! ### Cycles -/

/-- The sign in front of a cycle. -/
def cycleSign (colours : Bool) : List Char :=
  ("  " ++ paint colours (.ofColour .yellow) "↻" ++ " ").toList

/-- The heading of cycles up to their number. -/
def cyclesFront (colours : Bool) : List Char :=
  (marks colours (.boldColour .yellow)).1 ++ "Import Cycles (".toList

/-- The names of a cycle that the rest of its line tells. -/
def readCycle? (line : List Char) : Option (List String) :=
  (dropEnd? ['\n'] line).map fun names => (pieces " ↔ ".toList names).map String.ofList

/-- The cycles that a text tells. -/
def readCycles? (colours : Bool) (text : List Char) : Option (List (List String)) :=
  if text = [] then some []
  else do
    let headed ← dropMark? (cyclesFront colours) text
    let told ← dropEnd? ['\n'] (afterFeed headed)
    match pieces (cycleSign colours) told with
    | [] :: lines => lines.mapM readCycle?
    | _ => none

/-- A name that holds no sign of cycles. -/
def IsUnsigned (name : String) : Prop := '↻' ∉ name.toList ∧ '↔' ∉ name.toList

/-- A cycle with names, none of which holds a sign of cycles. -/
def IsReadable (cycle : List String) : Prop := cycle ≠ [] ∧ ∀ name ∈ cycle, IsUnsigned name

theorem exists_cycleSign_eq (colours : Bool) : ∃ front back,
    cycleSign colours = front ++ '↻' :: back ∧ back ≠ [] ∧ '↻' ∉ front ∧ '↻' ∉ back := by
  cases colours with
  | false => exact ⟨"  ".toList, " ".toList, by decide, by decide, by decide, by decide⟩
  | true =>
      exact ⟨"  \x1b[33m".toList, "\x1b[0m ".toList, rfl, by decide, by decide, by decide⟩

/-- The rest of the line of a cycle. -/
def cycleBack (cycle : List String) : List Char := (" ↔ ".intercalate cycle).toList ++ ['\n']

/-- The rest of the heading of cycles. -/
def headingBack (colours : Bool) (count : Nat) : List Char :=
  (toString count).toList ++ ')' :: (marks colours (.boldColour .yellow)).2

theorem toList_cycleLine (cycle : List String) :
    (cycleLine colours cycle).toList ++ ['\n'] = cycleSign colours ++ cycleBack cycle := by
  have htext : ∀ sign names : String,
      (sign ++ names).toList ++ ['\n'] = sign.toList ++ (names.toList ++ ['\n']) := by simp
  exact htext _ _

theorem toList_heading (count : Nat) :
    (paint colours (.boldColour .yellow) ("Import Cycles (" ++ toString count ++ ")")).toList =
      cyclesFront colours ++ headingBack colours count := by
  have hdigits : '\x1b' ∉ (toString count).toList := not_mem_digits (by decide) count
  have hplain : '\x1b' ∉ ("Import Cycles (" ++ toString count ++ ")").toList := by
    simp only [String.toList_append, List.mem_append, hdigits, or_false]
    decide
  rw [toList_paint hplain, String.toList_append, String.toList_append]
  simp [cyclesFront, headingBack]

/-- The lines of cycles are a heading, the cycles behind their signs and an empty line. -/
theorem toList_cycles (hne : cycles ≠ []) : (unlines (Terminal.cycles colours cycles)).toList =
    cyclesFront colours ++ (headingBack colours cycles.length ++
      '\n' :: ((cycleSign colours).intercalate ([] :: cycles.map cycleBack) ++ ['\n'])) := by
  have hcycles : Terminal.cycles colours cycles =
      paint colours (.boldColour .yellow) ("Import Cycles (" ++ toString cycles.length ++ ")") ::
        (cycles.map (cycleLine colours) ++ [""]) := by
    cases cycles with
    | nil => exact absurd rfl hne
    | cons cycle cycles => rfl
  have hlines : (unlines (cycles.map (cycleLine colours))).toList =
      (cycleSign colours).intercalate ([] :: cycles.map cycleBack) := by
    rw [toList_unlines, intercalate_cons, List.map_map, List.map_map, List.nil_append]
    exact congrArg List.flatten (List.map_congr_left fun cycle _ => toList_cycleLine cycle)
  rw [hcycles, toList_unlines_cons, toList_unlines_append, toList_heading, hlines]
  simp [unlines]

theorem readCycle?_cycleBack {cycle : List String} (hcycle : IsReadable cycle) :
    readCycle? (cycleBack cycle) = some cycle := by
  have hmark : " ↔ ".toList = [' '] ++ '↔' :: [' '] := rfl
  have hjoined := pieces_join hmark (by decide) (by decide) (by decide) hcycle.1
    fun name hname => (hcycle.2 name hname).2
  rw [readCycle?, cycleBack, dropEnd?_append, Option.map_some, hjoined]

theorem not_mem_cycleBack {cycle : List String} (hcycle : IsReadable cycle) :
    '↻' ∉ cycleBack cycle := by
  have hnames : ∀ name ∈ cycle.map String.toList, '↻' ∉ name := by
    simpa using fun name hname => (hcycle.2 name hname).1
  rw [cycleBack, String.toList_intercalate, List.mem_append, not_or]
  exact ⟨not_mem_intercalate (by decide) hnames, by decide⟩

/-- The cycles are read back from their lines if nothing in them looks like a sign. -/
theorem readCycles?_cycles (colours : Bool) (hcycles : ∀ cycle ∈ cycles, IsReadable cycle) :
    readCycles? colours (unlines (Terminal.cycles colours cycles)).toList = some cycles := by
  by_cases hne : cycles = []
  · rw [hne]
    rfl
  · have hsome : (unlines (Terminal.cycles colours cycles)).toList ≠ [] := by
      simp [toList_cycles hne]
    have hdigits : '\n' ∉ (toString cycles.length).toList := not_mem_digits (by decide) _
    have hclosed : '\n' ∉ ')' :: (marks colours (.boldColour .yellow)).2 := by
      cases colours <;> decide
    have hfeed : '\n' ∉ headingBack colours cycles.length := by
      rw [headingBack, List.mem_append, not_or]
      exact ⟨hdigits, hclosed⟩
    have hbacks : ∀ back ∈ [] :: cycles.map cycleBack, '↻' ∉ back :=
      List.forall_mem_cons.mpr ⟨List.not_mem_nil, List.forall_mem_map.mpr
        fun cycle hcycle => not_mem_cycleBack (hcycles cycle hcycle)⟩
    have hpieces : pieces (cycleSign colours)
        ((cycleSign colours).intercalate ([] :: cycles.map cycleBack)) =
          [] :: cycles.map cycleBack := by
      obtain ⟨front, back, hsign, hback, hfront, hown⟩ := exists_cycleSign_eq colours
      rw [hsign]
      exact pieces_intercalate hback hfront hown (List.cons_ne_nil _ _) hbacks
    rw [readCycles?, if_neg hsome, toList_cycles hne, dropMark?_append]
    simp only [Option.bind_eq_bind, Option.bind_some, afterFeed_append hfeed, dropEnd?_append,
      hpieces]
    exact mapM_map_eq_some fun cycle hcycle => readCycle?_cycleBack (hcycles cycle hcycle)

/-! ### The whole output -/

/-- The undeclared imports and the cycles that a text tells. The undeclared imports take a line, if
there are any. -/
def readBoth? (colours : Bool) (text : List Char) : Option (List String × List (List String)) :=
  if (unresolvedSign colours).isPrefixOf text then do
    let (line, rest) ← cut? ['\n'] text
    return (← readUnresolved? colours (line ++ ['\n']), ← readCycles? colours rest)
  else do
    return ([], ← readCycles? colours text)

/-- The undeclared imports and the cycles that the output of a scan tells in which every file was
parsed. -/
def readFindings? (colours : Bool) (testDir : Path) (output : String) :
    Option (List String × List (List String)) := do
  let scanned := unlines (info colours ("Scanned " ++ testDir.display))
  let parsed := unlines (success colours "All module files parsed.")
  let counted ← dropMark? scanned.toList output.toList
  let told ← dropEnd? parsed.toList (afterFeed counted)
  readBoth? colours told

/-- Cycles do not begin like undeclared imports. -/
theorem isPrefixOf_cycles (hne : cycles ≠ []) : (unresolvedSign colours).isPrefixOf
    (unlines (Terminal.cycles colours cycles)).toList = false := by
  rw [toList_cycles hne]
  cases colours <;> rfl

theorem readBoth?_append (hcommas : ∀ name ∈ names, ',' ∉ name.toList)
    (hfeeds : ∀ name ∈ names, '\n' ∉ name.toList) (hcycles : ∀ cycle ∈ cycles, IsReadable cycle) :
    readBoth? colours ((unlines (unresolved colours names)).toList ++
      (unlines (Terminal.cycles colours cycles)).toList) = some (names, cycles) := by
  have hreadCycles := readCycles?_cycles colours hcycles
  by_cases hnames : names = []
  · have hnone : (unlines (unresolved colours names)).toList = [] := by rw [hnames]; rfl
    have hsign : (unresolvedSign colours).isPrefixOf
        (unlines (Terminal.cycles colours cycles)).toList = false := by
      by_cases hne : cycles = []
      · rw [hne]
        cases colours <;> decide
      · exact isPrefixOf_cycles hne
    rw [hnone, List.nil_append, readBoth?, hsign, hreadCycles, hnames]
    rfl
  · have hread := readUnresolved?_unresolved colours hcommas
    have hfeed := not_mem_unresolved colours hfeeds
    have hline := toList_unresolved colours hnames
    rw [← List.append_assoc] at hline
    have hfirst : (unresolvedSign colours).isPrefixOf (unresolvedFront colours names.length ++
        unresolvedMark ++ (paint colours .faint (", ".intercalate names)).toList ++ ['\n'] ++
          (unlines (Terminal.cycles colours cycles)).toList) = true := by
      simp [unresolvedFront]
    rw [hline] at hread ⊢
    rw [readBoth?, if_pos hfirst, cut?_append (by decide)]
    · simp only [Option.bind_eq_bind, Option.bind_some, hread, hreadCycles]
      rfl
    · exact fun hheld => hfeed (by simpa using hheld.subset List.mem_cons_self)

/-- The output of a scan in which every file was parsed is read back if no undeclared import holds a
comma or a line feed and nothing in a cycle looks like a sign. -/
theorem readFindings?_unlines {testDir : Path} {summary : String}
    (hsummary : '\n' ∉ summary.toList) (hcommas : ∀ name ∈ names, ',' ∉ name.toList)
    (hfeeds : ∀ name ∈ names, '\n' ∉ name.toList) (hcycles : ∀ cycle ∈ cycles, IsReadable cycle) :
    readFindings? colours testDir (unlines (info colours ("Scanned " ++ testDir.display)
      ++ info colours summary ++ unresolved colours names ++ Terminal.cycles colours cycles
      ++ success colours "All module files parsed.")) = some (names, cycles) := by
  have hsign : '\n' ∉ ("  " ++ paint colours (.ofColour .blue) "→" ++ " ").toList := by
    cases colours <;> decide
  have hcounted : (unlines (info colours summary)).toList =
      ("  " ++ paint colours (.ofColour .blue) "→" ++ " " ++ summary).toList ++ ['\n'] :=
    toList_unlines_cons _ _
  have hfeed : '\n' ∉ ("  " ++ paint colours (.ofColour .blue) "→" ++ " " ++ summary).toList := by
    rw [String.toList_append, List.mem_append, not_or]
    exact ⟨hsign, hsummary⟩
  simp only [readFindings?, toList_unlines_append, List.append_assoc, dropMark?_append, hcounted,
    Option.bind_eq_bind, Option.bind_some]
  rw [List.singleton_append, afterFeed_append hfeed,
    ← List.append_assoc _ _ (unlines (success _ _)).toList, dropEnd?_append, Option.bind_some,
    readBoth?_append hcommas hfeeds hcycles]

end OberonImports.Terminal
