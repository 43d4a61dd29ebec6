import OberonImports.Proofs.Graph.Statement

/-!
# The whole text of a drawing

A drawing begins with its hints, one a line, and with the look of its nodes. A size is quoted, but a
direction is written as it is given. If it is one identifier of the language, then all lines of the
drawing are read back, hints and statements; if it is more, it may bring statements of its own.
-/

namespace OberonImports.Graph.Dot

open Text (QuotedLine dropMark? dropMark?_append unlines)
open Text.DotId (quote unescape?)

variable {graph : Graph} {ranks : Ranks} {options : DotOptions} {direction id : String}
  {line : QuotedLine} {lines : List QuotedLine} {rest : List Char}

/-! ### Identifiers -/

/-- The words that are no identifiers unless they are quoted, in any case. -/
def keywords : List String := ["strict", "graph", "digraph", "subgraph", "node", "edge"]

def isLetter (c : Char) : Bool := c.isAlpha || c = '_' || 127 < c.toNat

/-- A word that is an identifier as it stands. -/
def isWord (text : List Char) : Bool :=
  text.head?.any isLetter && text.all (fun c => isLetter c || c.isDigit) &&
    !keywords.contains (String.ofList (text.map Char.toLower))

/-- A number, which is an identifier as it stands. -/
def isNumeral (text : List Char) : Bool :=
  let digits := if text.head? = some '-' then text.tail else text
  digits.any Char.isDigit && digits.all (fun c => c.isDigit || c = '.') && digits.count '.' ≤ 1

def isBare (text : List Char) : Bool := isWord text || isNumeral text

/-- The identifier that a text is: a word or a number as it stands, or what stands in quotes. -/
def identifier? (text : String) : Option String :=
  if isBare text.toList then some text
  else
    match Text.DotId.read? text.toList with
    | some (id, []) => some (String.ofList id)
    | _ => none

/-- What stands without quotes holds neither quotes nor line feeds. -/
theorem not_mem_of_isBare {text : List Char} (hbare : isBare text = true) :
    '"' ∉ text ∧ '\n' ∉ text := by
  have hplain : ∀ c ∈ text, isLetter c = true ∨ c.isDigit = true ∨ c = '.' ∨ c = '-' := by
    intro c hc
    rcases Bool.or_eq_true_iff.mp hbare with hword | hnumeral
    · simp only [isWord, Bool.and_eq_true, List.all_eq_true, Bool.or_eq_true] at hword
      rcases hword.1.2 c hc with hletter | hdigit
      · exact .inl hletter
      · exact .inr (.inl hdigit)
    · simp only [isNumeral, Bool.and_eq_true, List.all_eq_true, Bool.or_eq_true,
        decide_eq_true_eq] at hnumeral
      have hdigits := hnumeral.1.2 c
      split at hdigits
      next hsign =>
        obtain ⟨digits, rfl⟩ := List.head?_eq_some_iff.mp hsign
        rcases List.mem_cons.mp hc with rfl | hdigit
        · exact .inr (.inr (.inr rfl))
        · exact (hdigits hdigit).elim (.inr ∘ .inl) (.inr ∘ .inr ∘ .inl)
      next => exact (hdigits hc).elim (.inr ∘ .inl) (.inr ∘ .inr ∘ .inl)
  constructor
  · exact fun hquote => absurd (hplain _ hquote) (by decide)
  · exact fun hfeed => absurd (hplain _ hfeed) (by decide)

/-- The pairs of identifiers of a line with an arrow between them. -/
def arrows : List (String × String) → List (String × String)
  | (source, behind) :: (target, rest) :: ids =>
      if behind = " -> " then (source, target) :: arrows ((target, rest) :: ids)
      else arrows ((target, rest) :: ids)
  | _ => []

/-! ### Hints -/

/-- The hints of a drawing, each with its name. -/
def hints (options : DotOptions) : List (String × String) :=
  (options.rankdir.bind identifier?).toList.map ("rankdir", ·) ++
    options.size.toList.map ("size", ·)

/-- The hint that a line gives. -/
def hint? (line : QuotedLine) : Option (String × String) :=
  match line.ids with
  | [] => do
      let value ← dropMark? "    rankdir=".toList line.front.toList
      if value.getLast? = some ';' then
        (identifier? (String.ofList value.dropLast)).map ("rankdir", ·)
      else none
  | [(id, ";")] =>
      if line.front = "    rankdir=" then some ("rankdir", id)
      else if line.front = "    size=" then some ("size", id)
      else none
  | _ => none

/-- The hints in front of the look of nodes, and the lines behind it. -/
def readHints? : List QuotedLine → Option (List (String × String) × List QuotedLine)
  | [] => none
  | line :: lines =>
      if line = ⟨nodeLookLine, []⟩ then some ([], lines)
      else do
        let hint ← hint? line
        let (hints, body) ← readHints? lines
        return (hint :: hints, body)

/-- The hints and the statements of a drawing, unless some line is neither. -/
def readDrawing? (text : String) : Option (List (String × String) × List Statement) := do
  let lines ← QuotedLine.read? text.toList
  match lines with
  | ⟨"digraph modules \x7b", []⟩ :: lines =>
      let (hints, body) ← readHints? lines
      let statements ← body.mapM Statement.ofLine?
      return (hints, statements)
  | _ => none

theorem hint?_nodeLook : hint? ⟨nodeLookLine, []⟩ = none := by
  decide

/-- By induction on the hints in front of the look of nodes. -/
theorem readHints?_append {front : List QuotedLine} {hints : List (String × String)}
    (hfront : front.map hint? = hints.map some) (body : List QuotedLine) :
    readHints? (front ++ ⟨nodeLookLine, []⟩ :: body) = some (hints, body) := by
  induction front generalizing hints with
  | nil =>
      obtain rfl : hints = [] := by simpa using hfront.symm
      simp [readHints?]
  | cons line front ih =>
      obtain ⟨hint, hints, rfl, hline, hrest⟩ := List.map_eq_cons_iff.mp hfront.symm
      have hlook : line ≠ ⟨nodeLookLine, []⟩ := by
        rintro rfl
        cases hint?_nodeLook.symm.trans hline.symm
      rw [List.cons_append, readHints?, if_neg hlook, ← hline, ih hrest.symm]
      rfl

/-- A text in front of a line feed is read as a line that gives a hint. -/
def IsHintText (text : String) (hint : String × String) : Prop :=
  ∀ rest lines, QuotedLine.read? rest = some lines →
    ∃ line, QuotedLine.read? (text.toList ++ '\n' :: rest) = some (line :: lines) ∧
      hint? line = some hint

theorem isHintText_of_line (hplain : line.IsPlain) {hint : String × String}
    (hhint : hint? line = some hint) : IsHintText line.text hint :=
  fun _ _ hrest => ⟨line, QuotedLine.read?_line hplain hrest, hhint⟩

theorem isHintText_sizeLine (size : String) : IsHintText (sizeLine size) ("size", size) := by
  have hplain : QuotedLine.IsPlain ⟨"    size=", [(size, ";")]⟩ := by simp [QuotedLine.IsPlain]
  exact isHintText_of_line hplain rfl

/-- A direction that is one identifier is a hint and nothing else. -/
theorem isHintText_rankdirLine (hid : identifier? direction = some id) :
    IsHintText (rankdirLine direction) ("rankdir", id) := by
  unfold identifier? at hid
  split at hid
  next hbare =>
    cases hid
    have hvalue : dropMark? "    rankdir=".toList
        ("    rankdir=" ++ direction ++ ";").toList = some (direction.toList ++ [';']) := by
      rw [String.append_assoc, String.toList_append, dropMark?_append]
      simp
    have hhint : hint? ⟨"    rankdir=" ++ direction ++ ";", []⟩ = some ("rankdir", direction) := by
      simp only [hint?, hvalue]
      simp [identifier?, hbare]
    have hplain : QuotedLine.IsPlain ⟨"    rankdir=" ++ direction ++ ";", []⟩ := by
      obtain ⟨hquote, hfeed⟩ := not_mem_of_isBare hbare
      simp [QuotedLine.IsPlain, hquote, hfeed]
    exact isHintText_of_line hplain hhint
  next =>
    split at hid
    next name hread =>
      cases hid
      obtain ⟨quoted, hquoted, hname⟩ : ∃ quoted, direction.toList = '"' :: quoted ∧
          unescape? quoted = some (name, []) := by
        unfold Text.DotId.read? at hread
        split at hread
        next quoted hquoted => exact ⟨quoted, hquoted, hread⟩
        next => cases hread
      intro rest lines hrest
      have hfeed : QuotedLine.read? ('\n' :: rest) = some (⟨"", []⟩ :: lines) := by
        simp [QuotedLine.read?, hrest]
      have hbehind : QuotedLine.read? ([';'] ++ '\n' :: rest) =
          some ((⟨"", []⟩ : QuotedLine).prepend (String.ofList [';']) :: lines) :=
        QuotedLine.read?_plain (by decide) (by decide) hfeed
      have hvalue := QuotedLine.read?_quoted (Text.DotId.unescape?_append hname) hbehind
      have hquote : '"' ∉ "    rankdir=".toList := by decide
      have hline := QuotedLine.read?_plain hquote (by decide) hvalue
      refine ⟨⟨"    rankdir=", [(String.ofList name, ";")]⟩, ?_, rfl⟩
      rw [rankdirLine, String.toList_append, String.toList_append, hquoted]
      simpa [QuotedLine.prepend, QuotedLine.prependId] using hline
    next => cases hid

/-- By induction on the hints: each is read in front of what is read behind it. -/
theorem exists_read?_hints {texts : List String} {hints : List (String × String)}
    (htexts : List.Forall₂ IsHintText texts hints) (hrest : QuotedLine.read? rest = some lines) :
    ∃ front, QuotedLine.read? ((unlines texts).toList ++ rest) = some (front ++ lines) ∧
      front.map hint? = hints.map some := by
  induction htexts with
  | nil => exact ⟨[], by simpa [unlines] using hrest, rfl⟩
  | @cons text hint texts hints htext _ ih =>
      obtain ⟨front, hfront, hhints⟩ := ih
      obtain ⟨line, hline, hhint⟩ := htext _ _ hfront
      exact ⟨line :: front, by simpa [unlines] using hline, by simp [hhint, hhints]⟩

/-- The hints of a drawing whose direction, if there is one, is one identifier. -/
theorem isHintText_hints
    (hdirection : ∀ direction ∈ options.rankdir, identifier? direction ≠ none) :
    List.Forall₂ IsHintText
      (options.rankdir.toList.map rankdirLine ++ options.size.toList.map sizeLine)
      (hints options) := by
  obtain ⟨layout, rankdir, size⟩ := options
  have hsize : List.Forall₂ IsHintText (size.toList.map sizeLine)
      (size.toList.map ("size", ·)) := by
    cases size with
    | none => exact .nil
    | some size => exact .cons (isHintText_sizeLine size) .nil
  cases rankdir with
  | none => exact hsize
  | some direction =>
      obtain ⟨id, hid⟩ := Option.ne_none_iff_exists'.mp (hdirection direction rfl)
      simp only [hints, Option.bind_some, hid]
      exact .cons (isHintText_rankdirLine hid) hsize

/-- Hints and statements are all that there is in a drawing whose direction, if there is one, is one
identifier. -/
theorem readDrawing?_dot (graph : Graph) (ranks : Ranks)
    (hdirection : ∀ direction ∈ options.rankdir, identifier? direction ≠ none) :
    readDrawing? (graph.dot ranks options) =
      some (hints options, statements graph ranks options.layout) := by
  let drawn := statements graph ranks options.layout
  have hlook : QuotedLine.IsPlain ⟨nodeLookLine, []⟩ := by simp [QuotedLine.IsPlain, nodeLookLine]
  have hopening : QuotedLine.IsPlain ⟨"digraph modules \x7b", []⟩ := by simp [QuotedLine.IsPlain]
  have hbehind := QuotedLine.read?_line hlook (read?_statements drawn)
  obtain ⟨front, hfront, hhints⟩ := exists_read?_hints (isHintText_hints hdirection) hbehind
  have hread := QuotedLine.read?_line hopening hfront
  have htext : (graph.dot ranks options).toList =
      (QuotedLine.text ⟨"digraph modules \x7b", []⟩).toList ++ '\n' ::
        ((unlines (options.rankdir.toList.map rankdirLine ++
          options.size.toList.map sizeLine)).toList ++ ((QuotedLine.text ⟨nodeLookLine, []⟩).toList ++
            '\n' :: (unlines (drawn.map Statement.text)).toList)) := by
    rw [dot, lines_eq, header]
    simp [unlines, QuotedLine.text, drawn]
  rw [← htext] at hread
  simp only [readDrawing?, hread, Option.bind_eq_bind, Option.bind_some, readHints?_append hhints,
    mapM_ofLine?]
  rfl

end OberonImports.Graph.Dot
