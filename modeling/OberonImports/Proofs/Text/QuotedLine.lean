import OberonImports.Proofs.Text.DotId
import OberonImports.Text.Lines

/-!
# Lines with quoted identifiers

A line is plain text in which quoted identifiers stand. An identifier may hold line feeds, so a text
is cut into lines by reading its identifiers as a whole. Lines whose plain text has neither quotes
nor line feeds are read back from the text that they make.
-/

namespace OberonImports.Text

open DotId (quote unescape?)

/-- Plain text, and then identifiers, each with the plain text behind it. -/
structure QuotedLine where
  front : String
  ids : List (String × String)
  deriving Repr, DecidableEq

namespace QuotedLine

variable {line : QuotedLine} {lines : List QuotedLine} {ids : List (String × String)}
  {chars rest : List Char}

/-- The line as it is written. -/
def text (line : QuotedLine) : String :=
  line.ids.foldl (fun text (id, behind) => text ++ quote id ++ behind) line.front

/-- The line with more plain text in front. -/
def prepend (front : String) (line : QuotedLine) : QuotedLine :=
  { line with front := front ++ line.front }

/-- The line with an identifier in front. -/
def prependId (id : String) (line : QuotedLine) : QuotedLine := ⟨"", (id, line.front) :: line.ids⟩

/-- The lines with the first one changed. A text that has not ended its last line is a line too. -/
def onFirst (change : QuotedLine → QuotedLine) : List QuotedLine → List QuotedLine
  | [] => [change ⟨"", []⟩]
  | line :: lines => change line :: lines

/-- The lines of a text, unless an identifier in it does not end. -/
def read? : List Char → Option (List QuotedLine)
  | [] => some []
  | '\n' :: text => (read? text).map (⟨"", []⟩ :: ·)
  | '"' :: text =>
      match _h : unescape? text with
      | none => none
      | some (id, rest) => (read? rest).map (onFirst (prependId (String.ofList id)))
  | c :: text => (read? text).map (onFirst (prepend (String.ofList [c])))
termination_by text => text.length
decreasing_by
  · exact Nat.lt_succ_self _
  · exact Nat.lt_succ_of_lt (DotId.length_lt_of_unescape? _h)
  · exact Nat.lt_succ_self _

/-- The plain text of a line has neither quotes nor line feeds. -/
def IsPlain (line : QuotedLine) : Prop :=
  ∀ text ∈ line.front :: line.ids.map (·.2), '"' ∉ text.toList ∧ '\n' ∉ text.toList

theorem toList_text (line : QuotedLine) : line.text.toList =
    line.front.toList ++
      line.ids.flatMap fun (id, behind) => (quote id).toList ++ behind.toList := by
  obtain ⟨front, ids⟩ := line
  unfold text
  induction ids generalizing front with
  | nil => simp
  | cons pair ids ih =>
      rw [List.foldl_cons, ih, List.flatMap_cons]
      simp

theorem read?_plain (hquote : '"' ∉ chars) (hfeed : '\n' ∉ chars)
    (hrest : read? rest = some (line :: lines)) :
    read? (chars ++ rest) = some (line.prepend (String.ofList chars) :: lines) := by
  induction chars with
  | nil => simpa [prepend] using hrest
  | cons c chars ih =>
      rw [List.mem_cons, not_or] at hquote hfeed
      have hinner := ih hquote.2 hfeed.2
      rw [List.cons_append, read?, hinner]
      · simp [onFirst, prepend, String.ofList_cons, String.append_assoc]
      · exact Ne.symm hfeed.1
      · exact Ne.symm hquote.1

/-- An identifier is read as a whole, however it has been escaped. -/
theorem read?_quoted {name : List Char} (hname : unescape? chars = some (name, rest))
    (hrest : read? rest = some (line :: lines)) :
    read? ('"' :: chars) = some (line.prependId (String.ofList name) :: lines) := by
  rw [read?]
  split
  next hnone =>
    rw [hname] at hnone
    cases hnone
  next found after hsome =>
    rw [hname] at hsome
    cases hsome
    simp [hrest, onFirst]

theorem read?_id (id : String) (hrest : read? rest = some (line :: lines)) :
    read? ((quote id).toList ++ rest) = some (line.prependId id :: lines) := by
  have hread := read?_quoted (DotId.unescape?_escape id.toList rest) hrest
  rw [String.ofList_toList] at hread
  rw [DotId.toList_quote, List.cons_append, List.append_assoc]
  exact hread

/-- By induction on the identifiers: a line is read up to its line feed. -/
theorem read?_line (hplain : line.IsPlain) (hrest : read? rest = some lines) :
    read? (line.text.toList ++ '\n' :: rest) = some (line :: lines) := by
  obtain ⟨front, ids⟩ := line
  rw [toList_text]
  induction ids generalizing front with
  | nil =>
      have hfeed : read? ('\n' :: rest) = some (⟨"", []⟩ :: lines) := by simp [read?, hrest]
      have hfront := hplain front List.mem_cons_self
      simpa [prepend] using read?_plain hfront.1 hfront.2 hfeed
  | cons pair ids ih =>
      obtain ⟨id, behind⟩ := pair
      have hfront := hplain front List.mem_cons_self
      have hinner : IsPlain ⟨behind, ids⟩ := by
        intro text htext
        exact hplain text (List.mem_cons_of_mem _ htext)
      have hread := read?_plain hfront.1 hfront.2 (read?_id id (ih behind hinner))
      simpa [prepend, prependId] using hread

/-- A text that ends each of its lines is read as these lines. -/
theorem read?_unlines (hplain : ∀ line ∈ lines, line.IsPlain) :
    read? (unlines (lines.map text)).toList = some lines := by
  induction lines with
  | nil => simp [unlines, read?]
  | cons line lines ih =>
      obtain ⟨hline, hrest⟩ := List.forall_mem_cons.mp hplain
      have hread := read?_line hline (ih hrest)
      simpa [unlines] using hread

end QuotedLine

end OberonImports.Text
