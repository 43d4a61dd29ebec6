import Mathlib.Data.List.Basic
import OberonImports.Proofs.Text.Cut

/-!
# Texts taken apart

A text is taken apart at its end, behind its first line, and at the marks between pieces that it was
joined from. Pieces are found again if they lack a character of the mark.
-/

namespace OberonImports.Text

variable {mark text before after front back rest : List Char} {parts : List (List Char)} {c : Char}

/-- The text before a mark that ends it. -/
def dropEnd? (mark text : List Char) : Option (List Char) :=
  (dropMark? mark.reverse text.reverse).map List.reverse

/-- The pieces of a text between the occurrences of a mark. An empty mark is not looked for. -/
def pieces (mark text : List Char) : List (List Char) :=
  if _hmark : mark = [] then [text]
  else
    match _hcut : cut? mark text with
    | none => [text]
    | some (before, after) => before :: pieces mark after
termination_by text.length
decreasing_by exact length_after_lt_of_cut? _hmark _hcut

/-- The text behind the first line feed. -/
def afterFeed (text : List Char) : List Char := (text.dropWhile (· ≠ '\n')).drop 1

/-- Parts joined behind a first one all follow a mark. -/
theorem intercalate_cons : mark.intercalate (text :: parts) =
    text ++ (parts.map (mark ++ ·)).flatten := by
  induction parts generalizing text with
  | nil => simp
  | cons part parts ih => rw [List.intercalate_cons_cons, ih]; simp

theorem not_mem_intercalate (hmark : c ∉ mark) (hparts : ∀ part ∈ parts, c ∉ part) :
    c ∉ mark.intercalate parts := by
  induction parts with
  | nil => simp
  | cons part parts ih =>
      obtain ⟨hpart, hrest⟩ := List.forall_mem_cons.mp hparts
      cases parts with
      | nil => simpa using hpart
      | cons next parts =>
          rw [List.intercalate_cons_cons, List.mem_append, List.mem_append, not_or, not_or]
          exact ⟨⟨hpart, hmark⟩, ih hrest⟩

/-- What is written item by item is read item by item. -/
theorem mapM_map_eq_some {α β : Type} {read? : β → Option α} {write : α → β} {items : List α}
    (hread : ∀ item ∈ items, read? (write item) = some item) :
    (items.map write).mapM read? = some items := by
  induction items with
  | nil => rfl
  | cons item items ih =>
      obtain ⟨hitem, hrest⟩ := List.forall_mem_cons.mp hread
      rw [List.map_cons, List.mapM_cons, hitem, ih hrest]
      rfl

theorem dropEnd?_append : dropEnd? mark (text ++ mark) = some text := by
  simp [dropEnd?, dropMark?_append]

theorem afterFeed_append (hfeed : '\n' ∉ text) : afterFeed (text ++ '\n' :: rest) = rest := by
  have hline : ∀ c ∈ text, decide (c ≠ '\n') = true := by
    intro c hc
    exact decide_eq_true fun heq => hfeed (heq ▸ hc)
  rw [afterFeed, List.dropWhile_append_of_pos hline]
  rfl

/-- Behind a text that lacks a character of the mark, no mark begins before its own place. -/
theorem not_infix_append_dropLast (hback : back ≠ []) (hfront : c ∉ front) (hown : c ∉ back)
    (htext : c ∉ text) : ¬ front ++ c :: back <:+: text ++ (front ++ c :: back).dropLast := by
  rintro ⟨upper, lower, heq⟩
  have hlast : (front ++ c :: back).dropLast = front ++ c :: back.dropLast := by
    rw [List.dropLast_append_of_ne_nil (List.cons_ne_nil _ _), List.dropLast_cons_of_ne_nil hback]
  have hsplit : (text ++ front) ++ c :: back.dropLast =
      (upper ++ front) ++ c :: (back ++ lower) := by
    simpa [hlast] using heq.symm
  have hleft : c ∉ text ++ front := by simp [htext, hfront]
  have hright : c ∉ back.dropLast := fun hc => hown (List.dropLast_subset back hc)
  obtain ⟨-, -, hbehind⟩ := (List.append_cons_inj_of_notMem hleft hright).mp hsplit
  have hlength := congrArg List.length hbehind
  have hpos := List.length_pos_of_ne_nil hback
  simp only [List.length_dropLast, List.length_append] at hlength
  omega

/-- Joined pieces that lack a character of the mark are found again. -/
theorem pieces_intercalate (hback : back ≠ []) (hfront : c ∉ front) (hown : c ∉ back)
    (hne : parts ≠ []) (hparts : ∀ part ∈ parts, c ∉ part) :
    pieces (front ++ c :: back) ((front ++ c :: back).intercalate parts) = parts := by
  have hmark : front ++ c :: back ≠ [] := by simp
  induction parts with
  | nil => exact absurd rfl hne
  | cons part parts ih =>
      obtain ⟨hpart, hrest⟩ := List.forall_mem_cons.mp hparts
      have hfirst : ¬ front ++ c :: back <:+: part ++ (front ++ c :: back).dropLast :=
        not_infix_append_dropLast hback hfront hown hpart
      cases parts with
      | nil =>
          have hnone : cut? (front ++ c :: back) part = none := by
            rw [cut?_eq_none hmark]
            exact fun hheld => hpart (hheld.subset (by simp))
          have hsingle : (front ++ c :: back).intercalate [part] = part := by simp
          rw [hsingle, pieces, dif_neg hmark, hnone]
      | cons next parts =>
          rw [List.intercalate_cons_cons, pieces, dif_neg hmark, cut?_append hmark hfirst]
          exact congrArg _ (ih (List.cons_ne_nil _ _) hrest)

end OberonImports.Text
