import Mathlib.Data.List.Basic
import OberonImports.Yaml.Scalar.Plain
import OberonImports.Yaml.Scalar.Quoted

/-!
# Reading back words and quoted texts

A text within one line is read back from what stands between single quotes, with its quotes written
twice. A word, which starts with a letter, is read back as it is if a colon and a blank follow it.
-/

namespace OberonImports.Yaml

variable {text word read rest : List Char} {mark : Mark} {stretch : Stretch} {c : Char}

/-- A text of characters that YAML admits, none of which ends a line. -/
def IsLine (text : List Char) : Prop :=
  ∀ c ∈ text, isPrintable c = true ∧ isBreak c = false ∧ c ≠ '\r' ∧ c ≠ '\x85'

instance (text : List Char) : Decidable (IsLine text) := List.decidableBAll _ text

theorem IsLine.not_isBreak (hline : IsLine text) : ∀ c ∈ text, isBreak c = false :=
  fun c hc => (hline c hc).2.1

/-! ### Places -/

/-- The number of octets of a text. -/
def octets (text : List Char) : Nat := text.foldr (·.utf8Size + ·) 0

/-- The place behind a text. -/
def Mark.behind (mark : Mark) (text : List Char) : Mark := text.foldl Mark.next mark

theorem Mark.next_of_not_isBreak (mark : Mark) (hc : isBreak c = false) :
    mark.next c = ⟨mark.index + c.utf8Size, mark.line, mark.column + 1⟩ := by
  rw [Mark.next, hc]
  rfl

/-- Within a line, a place moves by octets and characters. -/
theorem Mark.behind_of_not_isBreak (hline : ∀ c ∈ text, isBreak c = false) :
    mark.behind text = ⟨mark.index + octets text, mark.line, mark.column + text.length⟩ := by
  induction text generalizing mark with
  | nil => rfl
  | cons c text ih =>
      obtain ⟨hc, htext⟩ := List.forall_mem_cons.mp hline
      have hnext := Mark.next_of_not_isBreak mark hc
      rw [Mark.behind, List.foldl_cons, hnext]
      refine (ih htext).trans ?_
      simp only [octets, List.foldr_cons, List.length_cons, Mark.mk.injEq, true_and]
      omega

/-! ### Quoted texts -/

/-- A text with its quotes written twice. -/
def doubled (text : List Char) : List Char :=
  text.flatMap fun c => if c = '\'' then ['\'', '\''] else [c]

/-- A text between single quotes. -/
def quoted (text : List Char) : List Char := '\'' :: (doubled text ++ ['\''])

theorem doubled_cons_quote (text : List Char) :
    doubled ('\'' :: text) = '\'' :: '\'' :: doubled text := rfl

theorem doubled_cons (hc : c ≠ '\'') (text : List Char) : doubled (c :: text) = c :: doubled text := by
  rw [doubled, List.flatMap_cons, if_neg hc]
  rfl

theorem mem_doubled (hc : c ∈ doubled text) : c ∈ text := by
  obtain ⟨d, hd, hmem⟩ := List.mem_flatMap.mp hc
  split at hmem
  next hquote =>
    subst hquote
    simp only [List.mem_cons, List.not_mem_nil, or_false, or_self] at hmem
    exact hmem ▸ hd
  next => exact List.mem_singleton.mp hmem ▸ hd

theorem mem_quoted (hc : c ∈ quoted text) : c ∈ text ∨ c = '\'' := by
  rw [quoted, List.mem_cons, List.mem_append, List.mem_singleton] at hc
  rcases hc with rfl | hmem | rfl
  · exact .inr rfl
  · exact .inl (mem_doubled hmem)
  · exact .inr rfl

theorem folded_addBlank (hstretch : stretch.hasBreak = false) (c : Char) :
    (stretch.addBlank c).hasBreak = false ∧ (stretch.addBlank c).folded = stretch.folded ++ [c] := by
  cases stretch with
  | none => exact ⟨rfl, rfl⟩
  | blanks text => exact ⟨rfl, List.reverse_cons⟩
  | breaks first more => cases hstretch

/-- What is read between the quotes is the text, behind what has been read before. By induction on
the text, of which blanks wait in the stretch. -/
theorem singleQuoted?_doubled (hline : ∀ c ∈ text, isBreak c = false) (hcolumn : mark.column ≠ 0)
    (hstretch : stretch.hasBreak = false) (hrest : rest.head? ≠ some '\'') :
    singleQuoted? mark stretch read (doubled text ++ '\'' :: rest) =
      some (read.reverse ++ (stretch.folded ++ text),
        ⟨rest, mark.behind (doubled text ++ ['\''])⟩) := by
  induction text generalizing mark stretch read with
  | nil =>
      have hopen : ∀ text, ¬ ('\'' = '\'' ∧ rest = '\'' :: text) := by
        rintro text ⟨-, rfl⟩
        exact hrest rfl
      rw [doubled, List.flatMap_nil, List.nil_append, singleQuoted?]
      · simp [isBreak, isGap, Mark.behind]
      · exact fun text hquote hbehind => hopen text ⟨hquote, hbehind⟩
  | cons c text ih =>
      obtain ⟨hc, htext⟩ := List.forall_mem_cons.mp hline
      have hnext : ∀ d, isBreak d = false → (mark.next d).column ≠ 0 := by
        intro d hd
        rw [Mark.next_of_not_isBreak mark hd]
        exact Nat.succ_ne_zero _
      by_cases hquote : c = '\''
      · subst hquote
        have hsecond : ((mark.next '\'').next '\'').column ≠ 0 := by
          rw [Mark.next_of_not_isBreak _ rfl]
          exact Nat.succ_ne_zero _
        rw [doubled_cons_quote, List.cons_append, List.cons_append, singleQuoted?,
          ih htext hsecond rfl]
        simp [Stretch.folded, Mark.behind]
      · rw [doubled_cons hquote, List.cons_append, singleQuoted?]
        · have hsign : mark.atDocumentSign (c :: (doubled text ++ '\'' :: rest)) = false := by
            simp [Mark.atDocumentSign, hcolumn]
          obtain ⟨hblank, hfolded⟩ := folded_addBlank hstretch c
          rw [hc, if_neg Bool.false_ne_true]
          split
          next hgap =>
            rw [ih htext (hnext c hc) hblank, hfolded]
            simp [Mark.behind]
          next hgap =>
            rw [hsign, if_neg (by decide), ih htext (hnext c hc) rfl]
            simp [Stretch.folded, Mark.behind]
        · exact fun _ heq => absurd heq hquote

/-! ### Words -/

theorem ne_of_isNameChar {d : Char} (hc : isNameChar c = true) (hd : isNameChar d = false) :
    c ≠ d := by
  rintro rfl
  rw [hc] at hd
  cases hd

theorem not_isBreak_of_isNameChar (hc : isNameChar c = true) : isBreak c = false := by
  have hfeed : c ≠ '\n' := ne_of_isNameChar hc rfl
  have hline : c ≠ '\u2028' := ne_of_isNameChar hc rfl
  have hparagraph : c ≠ '\u2029' := ne_of_isNameChar hc rfl
  simp [isBreak, hfeed, hline, hparagraph]

theorem not_isGap_of_isNameChar (hc : isNameChar c = true) : isGap c = false := by
  have hspace : c ≠ ' ' := ne_of_isNameChar hc rfl
  have htab : c ≠ '\t' := ne_of_isNameChar hc rfl
  simp [isGap, hspace, htab]

/-- Whether a text is a word, which needs no quotes. -/
def isWord : List Char → Bool
  | [] => false
  | c :: text => c.isAlpha && text.all isNameChar

theorem isNameChar_of_isWord (hword : isWord text = true) : ∀ c ∈ text, isNameChar c = true := by
  cases text with
  | nil => cases hword
  | cons c text =>
      rw [isWord, Bool.and_eq_true, List.all_eq_true] at hword
      exact List.forall_mem_cons.mpr ⟨by simp [isNameChar, Char.isAlphanum, hword.1], hword.2⟩

/-- A word ends before a colon with a blank behind it. -/
theorem plainScalar?_word (context : PlainContext) (hflow : context.inFlow = false)
    (hword : ∀ c ∈ word, isNameChar c = true) (hrest : atGap rest = true) :
    plainScalar? context mark .none read (word ++ ':' :: rest) =
      some ⟨read.reverse ++ word, ⟨':' :: rest, mark.behind word⟩, false⟩ := by
  induction word generalizing mark read with
  | nil =>
      rw [List.nil_append, plainScalar?]
      simp [isBreak, isGap, hflow, hrest, Mark.behind, Stretch.hasBreak]
  | cons c word ih =>
      obtain ⟨hc, hword⟩ := List.forall_mem_cons.mp hword
      have hcolon : c ≠ ':' := ne_of_isNameChar hc rfl
      rw [List.cons_append, plainScalar?, not_isBreak_of_isNameChar hc, not_isGap_of_isNameChar hc]
      simp only [hflow, hcolon, Stretch.folded, ih hword]
      simp [Mark.behind]

end OberonImports.Yaml
