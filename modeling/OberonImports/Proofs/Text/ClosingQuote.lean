import Mathlib.Algebra.Group.Nat.Even
import Mathlib.Data.List.DropRight
import OberonImports.Proofs.Text.DotId

/-!
# The closing quote of an identifier

A quote closes an identifier if an even number of backslashes stands right before it: the
backslashes of such a run escape each other, and none is left for the quote. The reader stops at the
first closing quote. So a quoted identifier ends at the same place whatever follows, and no other one
begins with it.
-/

namespace OberonImports.Text.DotId

variable {inner rest text : List Char} {c : Char}

/-- How many backslashes stand at the end of a text with nothing between them. -/
def backslashRun (text : List Char) : ℕ := (text.rtakeWhile (· = '\\')).length

/-- A quote behind this text closes the identifier, and no quote in the text does. -/
structure EndsIdentifier (inner : List Char) : Prop where
  closing : Even (backslashRun inner)
  first : ∀ front back, inner = front ++ '"' :: back → ¬ Even (backslashRun front)

theorem backslashRun_le_length (text : List Char) : backslashRun text ≤ text.length :=
  (List.rtakeWhile_suffix _ text).length_le

/-- A character in front adds to the run if it is a backslash and the run is all of the text. -/
theorem backslashRun_cons : backslashRun (c :: text) =
    if backslashRun text = text.length ∧ c = '\\' then backslashRun text + 1
    else backslashRun text := by
  have hlength : (text.reverse.takeWhile (· = '\\')).length = backslashRun text := by
    simp [backslashRun, List.rtakeWhile]
  rw [backslashRun, List.rtakeWhile, List.reverse_cons, List.takeWhile_append, hlength,
    List.length_reverse]
  by_cases hall : backslashRun text = text.length <;> by_cases hc : c = '\\' <;>
    simp [hall, hc, hlength]

/-- A backslash in front and the character it escapes make no difference to which quotes close. -/
theorem even_backslashRun_cons_cons :
    Even (backslashRun ('\\' :: c :: text)) ↔ Even (backslashRun text) := by
  have hle := backslashRun_le_length text
  by_cases hc : c = '\\'
  · by_cases hall : backslashRun text = text.length
    · simp [backslashRun_cons, hall, hc, Nat.even_add_one]
    · have hne : backslashRun text ≠ text.length + 1 := by omega
      simp [backslashRun_cons, hall, hne]
  · have hne : backslashRun text ≠ text.length + 1 := by omega
    simp [backslashRun_cons, hc, hne]

theorem endsIdentifier_nil : EndsIdentifier [] where
  closing := Even.zero
  first := by simp

/-- Nothing stands before a closing quote at the front. -/
theorem EndsIdentifier.not_cons_quote : ¬ EndsIdentifier ('"' :: inner) :=
  fun hends => hends.first [] inner rfl Even.zero

/-- A character that is neither a quote nor a backslash is passed over. -/
theorem endsIdentifier_cons (hquote : c ≠ '"') (hbackslash : c ≠ '\\') :
    EndsIdentifier (c :: inner) ↔ EndsIdentifier inner := by
  have hrun : ∀ text, backslashRun (c :: text) = backslashRun text := by
    simp [backslashRun_cons, hbackslash]
  constructor
  · rintro ⟨hclosing, hfirst⟩
    refine ⟨hrun inner ▸ hclosing, ?_⟩
    rintro front back rfl
    rw [← hrun]
    exact hfirst (c :: front) back rfl
  · rintro ⟨hclosing, hfirst⟩
    refine ⟨(hrun inner).symm ▸ hclosing, ?_⟩
    rintro (_ | ⟨first, front⟩) back hinner
    · exact absurd (List.cons.inj hinner).1 hquote
    · obtain ⟨rfl, hrest⟩ := List.cons.inj hinner
      rw [hrun]
      exact hfirst front back hrest

/-- An escaped character is passed over with its backslash. -/
theorem endsIdentifier_escaped :
    EndsIdentifier ('\\' :: c :: inner) ↔ EndsIdentifier inner := by
  constructor
  · rintro ⟨hclosing, hfirst⟩
    refine ⟨even_backslashRun_cons_cons.mp hclosing, ?_⟩
    rintro front back rfl
    rw [← even_backslashRun_cons_cons (c := c)]
    exact hfirst ('\\' :: c :: front) back rfl
  · rintro ⟨hclosing, hfirst⟩
    refine ⟨even_backslashRun_cons_cons.mpr hclosing, ?_⟩
    rintro (_ | ⟨_, _ | ⟨_, front⟩⟩) back hinner
    · simp at hinner
    · obtain ⟨rfl, -⟩ := List.cons.inj hinner
      decide
    · obtain ⟨rfl, htail⟩ := List.cons.inj hinner
      obtain ⟨rfl, hrest⟩ := List.cons.inj htail
      rw [even_backslashRun_cons_cons]
      exact hfirst front back hrest

/-- The first closing quote of a text stands right before the rest. -/
def ClosesBefore (text rest : List Char) : Prop :=
  ∃ inner, text = inner ++ '"' :: rest ∧ EndsIdentifier inner

theorem not_closesBefore_nil : ¬ ClosesBefore [] rest := by
  simp [ClosesBefore]

theorem closesBefore_quote : ClosesBefore ('"' :: text) rest ↔ text = rest := by
  constructor
  · rintro ⟨_ | ⟨first, inner⟩, htext, hends⟩
    · exact (List.cons.inj htext).2
    · obtain ⟨rfl, -⟩ := List.cons.inj htext
      exact absurd hends EndsIdentifier.not_cons_quote
  · rintro rfl
    exact ⟨[], rfl, endsIdentifier_nil⟩

/-- A quote is met behind the front of a text that does not begin with one. -/
theorem closesBefore_cons_iff (hquote : c ≠ '"') : ClosesBefore (c :: text) rest ↔
    ∃ inner, text = inner ++ '"' :: rest ∧ EndsIdentifier (c :: inner) := by
  constructor
  · rintro ⟨_ | ⟨first, inner⟩, htext, hends⟩
    · exact absurd (List.cons.inj htext).1 hquote
    · obtain ⟨rfl, htail⟩ := List.cons.inj htext
      exact ⟨inner, htail, hends⟩
  · rintro ⟨inner, rfl, hends⟩
    exact ⟨c :: inner, rfl, hends⟩

theorem closesBefore_cons (hquote : c ≠ '"') (hbackslash : c ≠ '\\') :
    ClosesBefore (c :: text) rest ↔ ClosesBefore text rest := by
  rw [closesBefore_cons_iff hquote]
  simp only [endsIdentifier_cons hquote hbackslash, ClosesBefore]

theorem closesBefore_escaped : ClosesBefore ('\\' :: c :: text) rest ↔ ClosesBefore text rest := by
  rw [closesBefore_cons_iff (by decide)]
  constructor
  · rintro ⟨_ | ⟨first, inner⟩, htext, hends⟩
    · exact absurd hends.closing (by decide)
    · obtain ⟨rfl, htail⟩ := List.cons.inj htext
      exact ⟨inner, htail, endsIdentifier_escaped.mp hends⟩
  · rintro ⟨inner, rfl, hends⟩
    exact ⟨c :: inner, rfl, endsIdentifier_escaped.mpr hends⟩

/-- The reader stops at the first closing quote. -/
theorem exists_unescape?_eq_some_iff :
    (∃ name, unescape? text = some (name, rest)) ↔ ClosesBefore text rest := by
  fun_induction unescape? text with
  | case1 => simp [not_closesBefore_nil]
  | case2 text => simp [closesBefore_quote]
  | case3 c text ih =>
      rw [closesBefore_escaped, ← ih]
      simp
  | case4 c text hquote hbackslash ih =>
      by_cases hc : c = '\\'
      · cases text with
        | nil => simp [closesBefore_cons_iff hquote, unescape?]
        | cons next text => exact absurd rfl (hbackslash next text hc)
      · rw [closesBefore_cons hquote hc, ← ih]
        simp

theorem exists_read?_eq_some_iff : (∃ name, read? text = some (name, rest)) ↔
    ∃ inner, text = '"' :: (inner ++ '"' :: rest) ∧ EndsIdentifier inner := by
  fun_cases read? text with
  | case1 body =>
      rw [exists_unescape?_eq_some_iff, ClosesBefore]
      simp
  | case2 other hquote =>
      constructor
      · simp
      · rintro ⟨inner, rfl, -⟩
        exact absurd rfl (hquote _)

theorem read?_quote_append (id rest : String) :
    read? (quote id ++ rest).toList = some (id.toList, rest.toList) := by
  rw [String.toList_append, read?_quote]

/-- Two quoted identifiers with texts behind them are the same only if they have the same parts. -/
theorem quote_append_inj {first second behind after : String} :
    quote first ++ behind = quote second ++ after ↔ first = second ∧ behind = after := by
  constructor
  · intro hsame
    have hread := read?_quote_append first behind
    rw [hsame, read?_quote_append, Option.some.injEq, Prod.mk.injEq] at hread
    exact ⟨(String.toList_inj.mp hread.1).symm, (String.toList_inj.mp hread.2).symm⟩
  · rintro ⟨rfl, rfl⟩
    rfl

/-- Quoting is undone whatever follows. The reader stops at the first quote that stands behind an
even run of backslashes, and so no quoted identifier begins another one. -/
theorem quotes_delimit_identifiers :
    (∀ id rest : String, read? (quote id ++ rest).toList = some (id.toList, rest.toList)) ∧
    (∀ text rest, (∃ name, read? text = some (name, rest)) ↔
      ∃ inner, text = '"' :: (inner ++ '"' :: rest) ∧ EndsIdentifier inner) ∧
    (∀ first second behind after : String,
      quote first ++ behind = quote second ++ after ↔ first = second ∧ behind = after) :=
  ⟨read?_quote_append, fun _ _ => exists_read?_eq_some_iff, fun _ _ _ _ => quote_append_inj⟩

-- The quote inside stands behind three backslashes, the closing one behind two.
example : quote "a\\\"b\\" = "\"a\\\\\\\"b\\\\\"" ∧
    read? "\"a\\\\\\\"b\\\\\"c\"".toList = some ("a\\\"b\\".toList, "c\"".toList) := by
  decide

end OberonImports.Text.DotId
