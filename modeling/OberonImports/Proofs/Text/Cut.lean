import Mathlib.Data.List.Infix
import OberonImports.Text.Split

/-!
# The first occurrence of a mark

A text is cut where a mark occurs first, and only a text without the mark is not cut. The mark
occurs first behind a text if it does not occur in that text followed by all but its own end. For a
mark of two different characters, that end makes no difference, and an occurrence in two texts put
together is in one of them or across the seam. Pieces without a separator are the fields of the text
that joins them with it.
-/

namespace OberonImports.Text

variable {mark text before after rest first second : List Char} {a b c : Char}

theorem dropMark?_append : dropMark? mark (mark ++ rest) = some rest := by
  induction mark with
  | nil => rfl
  | cons m mark ih => simp [dropMark?, ih]

theorem dropMark?_eq_none : dropMark? mark text = none ↔ ¬ mark <+: text := by
  constructor
  · rintro hnone ⟨rest, rfl⟩
    rw [dropMark?_append] at hnone
    cases hnone
  · intro hnot
    cases hdrop : dropMark? mark text with
    | none => rfl
    | some rest => exact absurd ⟨rest, (append_of_dropMark? hdrop).symm⟩ hnot

/-- What has been passed comes before the rest of the search. -/
theorem cutFrom?_eq (passed : List Char) :
    cutFrom? mark passed text =
      (cut? mark text).map fun pieces => (passed.reverse ++ pieces.1, pieces.2) := by
  unfold cut?
  induction text generalizing passed with
  | nil => cases hdrop : dropMark? mark [] <;> simp [cutFrom?, hdrop]
  | cons c text ih =>
      unfold cutFrom?
      cases hdrop : dropMark? mark (c :: text) with
      | some rest => simp
      | none =>
          simp only [ih (c :: passed), ih [c]]
          simp [Function.comp_def]

theorem cut?_mark_append (hmark : mark ≠ []) : cut? mark (mark ++ rest) = some ([], rest) := by
  obtain ⟨m, tail, rfl⟩ := List.exists_cons_of_ne_nil hmark
  have hdrop : dropMark? (m :: tail) (m :: (tail ++ rest)) = some rest := dropMark?_append
  simp [cut?, cutFrom?, hdrop]

theorem cut?_cons_of_not_front (hnot : ¬ mark <+: c :: text) :
    cut? mark (c :: text) = (cut? mark text).map fun pieces => (c :: pieces.1, pieces.2) := by
  unfold cut?
  rw [cutFrom?, dropMark?_eq_none.mpr hnot]
  exact cutFrom?_eq [c]

/-- A text is cut if it holds the mark. -/
theorem cut?_eq_none (hmark : mark ≠ []) : cut? mark text = none ↔ ¬ mark <:+: text := by
  induction text with
  | nil => simp [cut?, cutFrom?, dropMark?_eq_none]
  | cons c text ih =>
      rw [List.infix_cons_iff, not_or, ← ih]
      by_cases hstart : mark <+: c :: text
      · obtain ⟨rest, hrest⟩ := hstart
        simp [← hrest, cut?_mark_append hmark]
      · simp [cut?_cons_of_not_front hstart, hstart]

/-- The mark is found behind a text in which it does not begin. -/
theorem cut?_append (hmark : mark ≠ []) (hfirst : ¬ mark <:+: before ++ mark.dropLast) :
    cut? mark (before ++ mark ++ after) = some (before, after) := by
  induction before with
  | nil => exact cut?_mark_append hmark
  | cons c before ih =>
      have hnot : ¬ mark <+: c :: (before ++ mark ++ after) := by
        intro hstart
        have hlong : c :: (before ++ mark.dropLast) <+: c :: (before ++ mark ++ after) := by
          rw [List.cons_prefix_cons, List.append_assoc, List.prefix_append_right_inj]
          exact ⟨rfl, (List.dropLast_prefix mark).trans (List.prefix_append mark after)⟩
        have hshort : mark.length ≤ (c :: (before ++ mark.dropLast)).length := by
          simp only [List.length_cons, List.length_append, List.length_dropLast]
          omega
        exact hfirst (List.prefix_of_prefix_length_le hstart hlong hshort).isInfix
      change cut? mark (c :: (before ++ mark ++ after)) = _
      rw [cut?_cons_of_not_front hnot, ih fun hoccurs => hfirst (List.infix_cons hoccurs)]
      rfl

/-- Before the place where a text is cut, the mark does not occur. -/
theorem no_mark_of_cut? (hmark : mark ≠ []) (hcut : cut? mark text = some (before, after)) :
    ¬ mark <:+: before := by
  induction text generalizing before with
  | nil =>
      have hempty := append_of_cut? hcut
      simp [hmark] at hempty
  | cons c text ih =>
      by_cases hstart : mark <+: c :: text
      · obtain ⟨rest, hrest⟩ := hstart
        rw [← hrest, cut?_mark_append hmark] at hcut
        cases hcut
        simpa using hmark
      · rw [cut?_cons_of_not_front hstart, Option.map_eq_some_iff] at hcut
        obtain ⟨⟨front, back⟩, hrest, hpair⟩ := hcut
        cases hpair
        rw [List.infix_cons_iff, not_or]
        refine ⟨fun hoccurs => hstart (hoccurs.trans ?_), ih hrest⟩
        rw [append_of_cut? hrest, List.cons_prefix_cons, List.append_assoc]
        exact ⟨rfl, List.prefix_append front _⟩

/-- Whatever stands behind an occurrence of the mark stands behind the place where the text is
cut. -/
theorem suffix_of_cut? (hmark : mark ≠ []) (hcut : cut? mark (first ++ mark ++ rest) =
    some (before, after)) : rest <:+ after := by
  induction first generalizing before with
  | nil =>
      rw [List.nil_append, cut?_mark_append hmark] at hcut
      cases hcut
      exact List.suffix_rfl
  | cons c first ih =>
      by_cases hstart : mark <+: c :: (first ++ mark ++ rest)
      · obtain ⟨behind, hbehind⟩ := hstart
        have hfound : cut? mark (mark ++ behind) = some (before, after) := by
          rw [hbehind]
          exact hcut
        rw [cut?_mark_append hmark] at hfound
        cases hfound
        have hwhole : rest <:+ c :: (first ++ mark ++ rest) := by
          rw [← List.cons_append]
          exact List.suffix_append _ rest
        refine List.suffix_of_suffix_length_le hwhole ⟨mark, hbehind⟩ ?_
        have hlength := congrArg List.length hbehind
        simp only [List.length_append, List.length_cons] at hlength
        omega
      · rw [List.cons_append, List.cons_append, cut?_cons_of_not_front hstart,
          Option.map_eq_some_iff] at hcut
        obtain ⟨⟨front, back⟩, hrest, hpair⟩ := hcut
        cases hpair
        exact ih hrest

/-! ## Marks of two characters -/

/-- A mark of two characters occurs in one of two texts, or begins at the end of the first. -/
theorem pair_infix_append : [a, b] <:+: first ++ second ↔
    [a, b] <:+: first ∨ [a, b] <:+: second ∨ (first.getLast? = some a ∧ second.head? = some b) := by
  rw [List.infix_append_iff, List.getLast?_eq_some_iff, List.head?_eq_some_iff]
  constructor
  · rintro (hfirst | hsecond | ⟨front, back, hpair, hfront, hback⟩)
    · exact .inl hfirst
    · exact .inr (.inl hsecond)
    · match front, hpair with
      | [], hpair => exact .inr (.inl (hpair ▸ hback.isInfix))
      | [_], hpair =>
          cases hpair
          obtain ⟨upper, rfl⟩ := hfront
          obtain ⟨lower, rfl⟩ := hback
          exact .inr (.inr ⟨⟨upper, rfl⟩, ⟨lower, rfl⟩⟩)
      | [_, _], hpair =>
          cases hpair
          exact .inl hfront.isInfix
  · rintro (hfirst | hsecond | ⟨⟨upper, rfl⟩, ⟨lower, rfl⟩⟩)
    · exact .inl hfirst
    · exact .inr (.inl hsecond)
    · exact .inr (.inr ⟨[a], [b], rfl, List.suffix_append upper [a], ⟨lower, rfl⟩⟩)

theorem pair_infix_concat (hne : a ≠ b) : [a, b] <:+: text ++ [a] ↔ [a, b] <:+: text := by
  rw [pair_infix_append]
  constructor
  · rintro (htext | hone | ⟨-, hlast⟩)
    · exact htext
    · exact absurd hone.length_le (by simp)
    · exact absurd (Option.some.inj hlast) hne
  · exact .inl

/-! ## Fields -/

section

variable {α : Type} [DecidableEq α] {separator : α} {piece left right : List α}

theorem fields_of_not_mem (hnot : separator ∉ piece) : fields separator piece = [piece] := by
  induction piece with
  | nil => rfl
  | cons c piece ih =>
      rw [List.mem_cons, not_or] at hnot
      simp [fields, Ne.symm hnot.1, ih hnot.2]

/-- A separator ends a field and begins another. -/
theorem fields_append : fields separator (left ++ separator :: right) =
    fields separator left ++ fields separator right := by
  induction left with
  | nil => simp [fields]
  | cons c left ih =>
      rw [List.cons_append, fields, fields, ih]
      split
      next => rfl
      next =>
        obtain ⟨piece, pieces, hpieces⟩ :=
          List.exists_cons_of_ne_nil (fields_ne_nil separator left)
        simp [hpieces]

/-- A field has what the text has, but for the separators. -/
theorem mem_of_mem_fields {c : α} (hpiece : piece ∈ fields separator left) (hc : c ∈ piece) :
    c ∈ left ∧ c ≠ separator := by
  induction left generalizing piece with
  | nil =>
      obtain rfl := List.mem_singleton.mp hpiece
      cases hc
  | cons first left ih =>
      obtain ⟨start, pieces, hpieces⟩ := List.exists_cons_of_ne_nil (fields_ne_nil separator left)
      simp only [fields, hpieces] at hpiece ih
      split at hpiece
      next =>
        rcases List.mem_cons.mp hpiece with rfl | hrest
        · cases hc
        · exact (ih hrest hc).imp_left (List.mem_cons_of_mem first)
      next hfirst =>
        rcases List.mem_cons.mp hpiece with rfl | hrest
        · rcases List.mem_cons.mp hc with rfl | hstart
          · exact ⟨List.mem_cons_self, hfirst⟩
          · exact (ih List.mem_cons_self hstart).imp_left (List.mem_cons_of_mem first)
        · exact (ih (List.mem_cons_of_mem start hrest) hc).imp_left (List.mem_cons_of_mem first)

theorem fields_joinFields {pieces : List (List α)}
    (hnot : ∀ other ∈ piece :: pieces, separator ∉ other) :
    fields separator (joinFields separator (piece :: pieces)) = piece :: pieces := by
  induction pieces generalizing piece with
  | nil => exact fields_of_not_mem (hnot piece List.mem_cons_self)
  | cons next pieces ih =>
      obtain ⟨hpiece, hrest⟩ := List.forall_mem_cons.mp hnot
      rw [joinFields, fields_append, fields_of_not_mem hpiece, ih hrest]
      · rfl
      · simp

/-- Where two texts meet, the last field of the first and the first field of the second are one. -/
theorem exists_fields_append (separator : α) (left right : List α) : ∃ front last first back,
    fields separator left = front ++ [last] ∧ fields separator right = first :: back ∧
      fields separator (left ++ right) = front ++ (last ++ first) :: back := by
  induction left with
  | nil =>
      obtain ⟨first, back, hright⟩ := List.exists_cons_of_ne_nil (fields_ne_nil separator right)
      exact ⟨[], [], first, back, rfl, hright, hright⟩
  | cons c left ih =>
      obtain ⟨front, last, first, back, hleft, hright, hboth⟩ := ih
      by_cases hc : c = separator
      · refine ⟨[] :: front, last, first, back, ?_, hright, ?_⟩
        · simp [fields, hc, hleft]
        · simp [fields, hc, hboth]
      · cases front with
        | nil =>
            refine ⟨[], c :: last, first, back, ?_, hright, ?_⟩
            · simp [fields, hc, hleft]
            · simp [fields, hc, hboth]
        | cons piece front =>
            refine ⟨(c :: piece) :: front, last, first, back, ?_, hright, ?_⟩
            · simp [fields, hc, hleft]
            · simp [fields, hc, hboth]

/-- The pieces between the separators of a text: joined they give the text, and no piece holds a
separator. -/
structure IsFields (separator : α) (text : List α) (pieces : List (List α)) : Prop where
  ne_nil : pieces ≠ []
  joined : joinFields separator pieces = text
  free : ∀ piece ∈ pieces, separator ∉ piece

theorem isFields_iff {pieces : List (List α)} :
    IsFields separator left pieces ↔ fields separator left = pieces := by
  constructor
  · rintro ⟨hne, rfl, hfree⟩
    obtain ⟨piece, pieces, rfl⟩ := List.exists_cons_of_ne_nil hne
    exact fields_joinFields hfree
  · rintro rfl
    refine ⟨fields_ne_nil separator left, joinFields_fields separator left, ?_⟩
    intro piece hpiece hmem
    exact (mem_of_mem_fields hpiece hmem).2 rfl

omit [DecidableEq α] in
/-- The first piece stands at the front of the joined text. -/
theorem exists_joinFields_cons (pieces : List (List α)) :
    ∃ rest, joinFields separator (piece :: pieces) = piece ++ rest := by
  cases pieces with
  | nil => exact ⟨[], (List.append_nil piece).symm⟩
  | cons next pieces => exact ⟨_, rfl⟩

omit [DecidableEq α] in
theorem not_mem_joinFields {pieces : List (List α)} {c : α} (hne : c ≠ separator)
    (hnot : ∀ piece ∈ pieces, c ∉ piece) : c ∉ joinFields separator pieces := by
  induction pieces with
  | nil => exact List.not_mem_nil
  | cons piece pieces ih =>
      obtain ⟨hpiece, hrest⟩ := List.forall_mem_cons.mp hnot
      cases pieces with
      | nil => exact hpiece
      | cons next pieces =>
          rw [joinFields, List.mem_append, List.mem_cons, not_or, not_or]
          · exact ⟨hpiece, hne, ih hrest⟩
          · simp

end

end OberonImports.Text
