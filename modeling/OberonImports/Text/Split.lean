/-!
# Cutting texts at marks

`cut?` cuts a text at the first occurrence of a mark; `fields` cuts it at every occurrence of one
separator. Both keep all else in order, so the pieces joined with the marks give the text back.
-/

namespace OberonImports.Text

/-- The rest of a text behind `mark`, if the text begins with it. -/
def dropMark? : List Char → List Char → Option (List Char)
  | [], text => some text
  | _ :: _, [] => none
  | m :: mark, c :: text => if m = c then dropMark? mark text else none

/-- Cut at the first occurrence of `mark`, with the characters already passed newest first. -/
def cutFrom? (mark passed : List Char) : List Char → Option (List Char × List Char)
  | [] => (dropMark? mark []).map (passed.reverse, ·)
  | c :: text =>
      match dropMark? mark (c :: text) with
      | some rest => some (passed.reverse, rest)
      | none => cutFrom? mark (c :: passed) text

/-- The text before and the text behind the first occurrence of `mark`. -/
def cut? (mark text : List Char) : Option (List Char × List Char) := cutFrom? mark [] text

/-- The pieces of a sequence between the occurrences of a separator, empty ones included. -/
def fields {α : Type} [DecidableEq α] (separator : α) : List α → List (List α)
  | [] => [[]]
  | c :: text =>
      if c = separator then [] :: fields separator text
      else
        match fields separator text with
        | [] => [[c]]
        | piece :: pieces => (c :: piece) :: pieces

/-- The pieces with the separator between them. -/
def joinFields {α : Type} (separator : α) : List (List α) → List α
  | [] => []
  | [piece] => piece
  | piece :: pieces => piece ++ separator :: joinFields separator pieces

theorem fields_ne_nil {α : Type} [DecidableEq α] (separator : α) (text : List α) :
    fields separator text ≠ [] := by
  cases text with
  | nil => simp [fields]
  | cons c text =>
    unfold fields
    split
    · simp
    · split <;> simp

/-- Cutting loses nothing but the separators. -/
theorem joinFields_fields {α : Type} [DecidableEq α] (separator : α) (text : List α) :
    joinFields separator (fields separator text) = text := by
  induction text with
  | nil => rfl
  | cons c text ih =>
    unfold fields
    cases hpieces : fields separator text with
    | nil => exact absurd hpieces (fields_ne_nil separator text)
    | cons piece pieces =>
      rw [hpieces] at ih
      split
      next hc => simp [joinFields, ih, hc]
      next hc => cases pieces <;> simp_all [joinFields]

theorem append_of_dropMark? {mark text rest : List Char} (h : dropMark? mark text = some rest) :
    text = mark ++ rest := by
  fun_induction dropMark? mark text with
  | case1 text => simpa using h
  | case2 => simp at h
  | case3 m mark text ih => simpa using ih h
  | case4 => simp at h

theorem append_of_cutFrom? {mark passed text before after : List Char}
    (h : cutFrom? mark passed text = some (before, after)) :
    passed.reverse ++ text = before ++ mark ++ after := by
  fun_induction cutFrom? mark passed text with
  | case1 passed =>
    obtain ⟨rest, hrest, hpair⟩ := Option.map_eq_some_iff.1 h
    obtain ⟨rfl, rfl⟩ := Prod.mk.inj hpair
    simp [append_of_dropMark? hrest]
  | case2 passed c text rest hrest =>
    obtain ⟨rfl, rfl⟩ := Prod.mk.inj (Option.some.inj h)
    simp [append_of_dropMark? hrest]
  | case3 passed c text hnone ih => simpa using ih h

/-- A cut loses nothing but splits the text around the mark. -/
theorem append_of_cut? {mark text before after : List Char}
    (h : cut? mark text = some (before, after)) : text = before ++ mark ++ after := by
  simpa using append_of_cutFrom? h

theorem length_after_lt_of_cut? {mark text before after : List Char} (hmark : mark ≠ [])
    (h : cut? mark text = some (before, after)) : after.length < text.length := by
  have hlength := congrArg List.length (append_of_cut? h)
  have := List.length_pos_iff.2 hmark
  simp only [List.length_append] at hlength
  omega

end OberonImports.Text
