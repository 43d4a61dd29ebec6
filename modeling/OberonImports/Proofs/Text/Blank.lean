import Mathlib.Data.List.Basic
import Mathlib.Data.List.TakeWhile
import Mathlib.Data.String.Basic
import OberonImports.Text.Blank
import OberonImports.Text.WordChar

/-!
# Blanks and word characters

No blank is a word character, while letters, digits and the underscore are. Trimming removes the
blanks around a text that neither begins nor ends with a blank.
-/

namespace OberonImports.Text

variable {c letter : Char} {front core back text : List Char}

theorem exists_range_of_inRanges {ranges : List CodeRange} {code : Nat}
    (hcode : inRanges ranges code = true) :
    ∃ range ∈ ranges, range.first ≤ code ∧ code ≤ range.last := by
  induction ranges with
  | nil => cases hcode
  | cons range ranges ih =>
      unfold inRanges at hcode
      split at hcode
      next => cases hcode
      next hfirst =>
        split at hcode
        next hlast => exact ⟨range, List.mem_cons_self, Nat.le_of_not_lt hfirst, hlast⟩
        next =>
          obtain ⟨other, hmem, hbounds⟩ := ih hcode
          exact ⟨other, List.mem_cons_of_mem _ hmem, hbounds⟩

theorem not_isWordChar_of_isBlank (hblank : isBlank c = true) : isWordChar c = false := by
  have htable : ∀ range ∈ blankRanges, ∀ offset < range.last + 1 - range.first,
      inRanges wordRanges (range.first + offset) = false := by decide +kernel
  obtain ⟨range, hrange, hfirst, hlast⟩ := exists_range_of_inRanges hblank
  have hcode := htable range hrange (c.toNat - range.first) (by omega)
  rwa [Nat.add_sub_cancel' hfirst] at hcode

/-- Whether a character may stand in an identifier: a letter, a digit or the underscore. -/
def isIdentChar (c : Char) : Bool := c.isAlphanum || c = '_'

theorem isIdentChar_eq :
    isIdentChar c = (c.isUpper || c.isLower || c.isDigit || decide (c = '_')) := rfl

theorem toNat_lt_of_isIdentChar (hchar : isIdentChar c = true) : c.toNat < 128 := by
  have hkinds : (decide ('A'.val ≤ c.val ∧ c.val ≤ 'Z'.val) ||
      (decide ('a'.val ≤ c.val) && decide (c.val ≤ 'z'.val)) ||
      (decide ('0'.val ≤ c.val) && decide (c.val ≤ '9'.val)) || decide (c = '_')) = true := hchar
  simp only [Bool.or_eq_true, Bool.and_eq_true, decide_eq_true_eq, UInt32.le_iff_toNat_le] at hkinds
  rcases hkinds with hcode | rfl
  · simp at hcode
    omega
  · decide

theorem isWordChar_of_isIdentChar (hchar : isIdentChar c = true) : isWordChar c = true := by
  have htable : ∀ code < 128, isIdentChar (Char.ofNat code) = true →
      inRanges wordRanges code = true := by decide +kernel
  have hcode := htable c.toNat (toNat_lt_of_isIdentChar hchar)
  rw [Char.ofNat_toNat] at hcode
  exact hcode hchar

theorem not_isBlank_of_isIdentChar (hchar : isIdentChar c = true) : isBlank c = false := by
  cases hblank : isBlank c with
  | false => rfl
  | true =>
      rw [← not_isWordChar_of_isBlank hblank, isWordChar_of_isIdentChar hchar]

/-- A character whose capital is a letter may stand in an identifier. -/
theorem isIdentChar_of_toUpper (hcapital : c.toUpper = letter) (hupper : letter.isUpper = true) :
    isIdentChar c = true := by
  subst hcapital
  unfold Char.toUpper at hupper
  split at hupper
  next hlower =>
    have hletter : c.isLower = true :=
      Bool.and_eq_true_iff.mpr ⟨decide_eq_true hlower.1, decide_eq_true hlower.2⟩
    simp [isIdentChar_eq, hletter]
  next => simp [isIdentChar_eq, hupper]

theorem not_mem_of_forall_isBlank (hblank : ∀ c ∈ text, isBlank c = true)
    (hc : isBlank c = false) : c ∉ text := by
  intro hmem
  rw [hblank c hmem] at hc
  cases hc

theorem trimFront_append (hfront : ∀ c ∈ front, isBlank c = true)
    (hcore : ∀ c ∈ core.head?, isBlank c = false) (hne : core ≠ []) :
    trimFront (front ++ core) = core := by
  obtain ⟨first, rest, rfl⟩ := List.exists_cons_of_ne_nil hne
  have hfirst : ¬ isBlank first = true := by simp [hcore first rfl]
  rw [trimFront, List.dropWhile_append_of_pos hfront, List.dropWhile_cons_of_neg hfirst]

theorem trimBack_append (hback : ∀ c ∈ back, isBlank c = true)
    (hcore : ∀ c ∈ core.getLast?, isBlank c = false) (hne : core ≠ []) :
    trimBack (core ++ back) = core := by
  have hreverse : trimFront (back.reverse ++ core.reverse) = core.reverse :=
    trimFront_append (by simpa using hback) (by simpa using hcore) (by simpa using hne)
  rw [trimBack, List.reverse_append]
  exact List.reverse_eq_iff.mpr hreverse

/-- Trimming leaves what stands between the blanks. -/
theorem trim_append (hfront : ∀ c ∈ front, isBlank c = true) (hback : ∀ c ∈ back, isBlank c = true)
    (hhead : ∀ c ∈ core.head?, isBlank c = false) (hlast : ∀ c ∈ core.getLast?, isBlank c = false)
    (hne : core ≠ []) : trim (front ++ core ++ back) = core := by
  have hsame : (core ++ back).head? = core.head? := List.head?_append_of_ne_nil _ hne
  rw [trim, List.append_assoc, trimFront_append hfront (hsame ▸ hhead) (by simp [hne]),
    trimBack_append hback hlast hne]

/-- A text with something in it and no blank at its ends. -/
structure IsTrimmed (text : List Char) : Prop where
  ne_nil : text ≠ []
  front : ∀ c ∈ text.head?, isBlank c = false
  back : ∀ c ∈ text.getLast?, isBlank c = false

theorem trimBack_isPrefix : trimBack text <+: text := by
  rw [trimBack, ← List.reverse_suffix, List.reverse_reverse]
  exact List.dropWhile_suffix isBlank

theorem trim_isInfix : trim text <:+: text :=
  trimBack_isPrefix.isInfix.trans (List.dropWhile_suffix isBlank).isInfix

/-- Trimming leaves no blank at the ends of what it leaves. -/
theorem isTrimmed_trim (hne : trim text ≠ []) : IsTrimmed (trim text) where
  ne_nil := hne
  front := by
    intro c hc
    have hprefix : trim text <+: trimFront text := trimBack_isPrefix
    have hstart : (trimFront text).head? = some c := by
      obtain ⟨rest, hrest⟩ := hprefix
      rw [← hrest, List.head?_append_of_ne_nil _ hne]
      exact hc
    have hnot := List.head?_dropWhile_not isBlank text
    rw [trimFront] at hstart
    simpa [hstart] using hnot
  back := by
    intro c hc
    rw [trim, trimBack, List.getLast?_reverse] at hc
    have hnot := List.head?_dropWhile_not isBlank (trimFront text).reverse
    rw [Option.mem_def] at hc
    simpa [hc] using hnot

/-! ## What trimming leaves of any text -/

/-- Blanks around a text make no difference to what trimming leaves of it. -/
theorem trim_blanks_append (hfront : ∀ c ∈ front, isBlank c = true)
    (hback : ∀ c ∈ back, isBlank c = true) : trim (front ++ text ++ back) = trim text := by
  have hdropped : back.dropWhile isBlank = [] := List.dropWhile_eq_nil_iff.mpr hback
  rw [trim, trim, trimFront, trimFront, List.append_assoc, List.dropWhile_append_of_pos hfront,
    List.dropWhile_append]
  split
  next hnone => rw [List.isEmpty_iff.mp hnone, hdropped]
  next =>
    rw [trimBack, trimBack, List.reverse_append,
      List.dropWhile_append_of_pos (by simpa using hback)]

/-- What trimming takes from a text are blanks in front and blanks behind. -/
theorem exists_eq_append_trim (text : List Char) : ∃ front back,
    text = front ++ trim text ++ back ∧ (∀ c ∈ front, isBlank c = true) ∧
      ∀ c ∈ back, isBlank c = true := by
  have hpassed : ∀ text : List Char, ∀ c ∈ text.takeWhile isBlank, isBlank c = true :=
    fun _ => List.all_eq_true.mp List.all_takeWhile
  refine ⟨text.takeWhile isBlank, ((trimFront text).reverse.takeWhile isBlank).reverse, ?_,
    hpassed text, fun c hc => hpassed _ c (List.mem_reverse.mp hc)⟩
  rw [trim, trimBack, List.append_assoc, ← List.reverse_append, List.takeWhile_append_dropWhile,
    List.reverse_reverse, trimFront, List.takeWhile_append_dropWhile]

theorem trim_eq_nil_iff : trim text = [] ↔ ∀ c ∈ text, isBlank c = true := by
  constructor
  · intro hnil
    obtain ⟨front, back, htext, hfront, hback⟩ := exists_eq_append_trim text
    rw [htext, hnil, List.append_nil]
    exact fun c hc => (List.mem_append.mp hc).elim (hfront c) (hback c)
  · intro hblank
    calc trim text = trim (text ++ [] ++ []) := by rw [List.append_nil, List.append_nil]
      _ = trim [] := trim_blanks_append hblank (by simp)
      _ = [] := rfl

/-- Trimming the front goes no further than a character that is no blank. -/
theorem trimFront_append_cons (hc : isBlank c = false) :
    trimFront (front ++ c :: text) = trimFront front ++ c :: text := by
  have hstop : (c :: text).dropWhile isBlank = c :: text :=
    List.dropWhile_cons_of_neg (by simp [hc])
  rw [trimFront, trimFront, List.dropWhile_append]
  split
  next hnone => rw [hstop, List.isEmpty_iff.mp hnone, List.nil_append]
  next => rfl

theorem trimBack_append_cons (hc : isBlank c = false) :
    trimBack (text ++ c :: back) = text ++ c :: trimBack back := by
  have hreverse : trimFront (back.reverse ++ c :: text.reverse) =
      trimFront back.reverse ++ c :: text.reverse := trimFront_append_cons hc
  have hswap : (text ++ c :: back).reverse = back.reverse ++ c :: text.reverse := by simp
  rw [trimBack, hswap]
  exact (congrArg List.reverse hreverse).trans (by simp [trimFront, trimBack])

/-- What trimming the back takes makes no difference to what trimming leaves. -/
theorem trim_trimBack (text : List Char) : trim (trimBack text) = trim text := by
  have hback : ∀ c ∈ (text.reverse.takeWhile isBlank).reverse, isBlank c = true :=
    fun c hc => List.all_eq_true.mp List.all_takeWhile c (List.mem_reverse.mp hc)
  have hsplit : [] ++ trimBack text ++ (text.reverse.takeWhile isBlank).reverse = text := by
    rw [List.nil_append, trimBack, ← List.reverse_append, List.takeWhile_append_dropWhile,
      List.reverse_reverse]
  have hsame : trim ([] ++ trimBack text ++ (text.reverse.takeWhile isBlank).reverse) =
      trim (trimBack text) := trim_blanks_append (by simp) hback
  rw [← hsame, hsplit]

/-- A text is a core between blanks, and the core has no blank at its ends. -/
structure HasCore (text core : List Char) : Prop where
  isTrimmed : IsTrimmed core
  split : ∃ front back, text = front ++ core ++ back ∧ (∀ c ∈ front, isBlank c = true) ∧
    ∀ c ∈ back, isBlank c = true

theorem hasCore_iff : HasCore text core ↔ trim text = core ∧ core ≠ [] := by
  constructor
  · rintro ⟨htrimmed, front, back, rfl, hfront, hback⟩
    exact ⟨trim_append hfront hback htrimmed.front htrimmed.back htrimmed.ne_nil,
      htrimmed.ne_nil⟩
  · rintro ⟨rfl, hne⟩
    exact ⟨isTrimmed_trim hne, exists_eq_append_trim text⟩

end OberonImports.Text
