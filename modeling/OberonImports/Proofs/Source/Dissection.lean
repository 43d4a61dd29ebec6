import OberonImports.Proofs.Source.Comment
import OberonImports.Proofs.Text.Removal

/-!
# Taking a text apart at its comments

Every text comes apart in one way: complete comments, before each a segment without an opening mark,
and a rest in which no opening mark is closed. Stripping comments keeps the segments and the rest.
A regular expression with a reluctant body removes the same comments.
-/

namespace OberonImports.Source

open Text

/-- A comment stands somewhere in a text, whether or not it is read as one. -/
def HasSpan (text : List Char) : Prop := ∃ body, comment body <:+: text

/-- A segment in which no comment begins, and the comment behind it. -/
structure Passage where
  segment : List Char
  body : List Char
  no_open : ¬ openMark <:+: segment
  no_close : ¬ closeMark <:+: body

/-- A text in parts: comments, each with the segment before it, and what stands behind the last. -/
inductive Dissection where
  | rest (tail : List Char) (no_span : ¬ HasSpan tail)
  | cons (passage : Passage) (behind : Dissection)

namespace Dissection

def text : Dissection → List Char
  | .rest tail _ => tail
  | .cons passage behind => passage.segment ++ comment passage.body ++ behind.text

/-- The text without its comments. -/
def kept : Dissection → List Char
  | .rest tail _ => tail
  | .cons passage behind => passage.segment ++ behind.kept

end Dissection

variable {text body left right : List Char}

/-! ## Spans -/

theorem append_comment_append : left ++ comment body ++ right =
    left ++ openMark ++ (body ++ closeMark ++ right) := by
  simp only [comment, List.append_assoc]

/-- Whether a span stands in a text shows behind the first opening mark. -/
theorem hasSpan_iff : HasSpan text ↔
    ∃ segment inner, cut? openMark text = some (segment, inner) ∧ closeMark <:+: inner := by
  constructor
  · rintro ⟨body, front, back, rfl⟩
    rw [append_comment_append]
    cases hcut : cut? openMark (front ++ openMark ++ (body ++ closeMark ++ back)) with
    | none =>
        apply absurd _ ((cut?_eq_none (by decide)).mp hcut)
        exact ⟨front, body ++ closeMark ++ back, rfl⟩
    | some pieces =>
        obtain ⟨segment, inner⟩ := pieces
        have hinner : body ++ closeMark ++ back <:+ inner := suffix_of_cut? (by decide) hcut
        have hclose : closeMark <:+: body ++ closeMark ++ back := ⟨body, back, rfl⟩
        exact ⟨segment, inner, rfl, hclose.trans hinner.isInfix⟩
  · rintro ⟨segment, inner, hcut, body, back, rfl⟩
    refine ⟨body, segment, back, ?_⟩
    rw [append_of_cut? hcut, append_comment_append]

/-- A text with a span has a first comment. -/
theorem HasSpan.exists_first (hspan : HasSpan text) : ∃ (passage : Passage) (rest : List Char),
    text = passage.segment ++ comment passage.body ++ rest := by
  obtain ⟨segment, inner, hopen, hinfix⟩ := hasSpan_iff.mp hspan
  cases hclose : cut? closeMark inner with
  | none => exact absurd hinfix ((cut?_eq_none (by decide)).mp hclose)
  | some pieces =>
      obtain ⟨body, rest⟩ := pieces
      have hsegment : ¬ openMark <:+: segment := no_mark_of_cut? (by decide) hopen
      have hbody : ¬ closeMark <:+: body := no_mark_of_cut? (by decide) hclose
      have htext : text = segment ++ comment body ++ rest := by
        rw [append_of_cut? hopen, append_of_cut? hclose, append_comment_append]
      exact ⟨⟨segment, body, hsegment, hbody⟩, rest, htext⟩

/-- A text without a span is kept. -/
theorem stripComments_of_no_span (hnone : ¬ HasSpan text) : stripComments text = text := by
  cases hcut : cut? openMark text with
  | none => exact stripComments_of_no_mark ((cut?_eq_none (by decide)).mp hcut)
  | some pieces =>
      obtain ⟨segment, inner⟩ := pieces
      have hinner : ¬ closeMark <:+: inner :=
        fun hclose => hnone (hasSpan_iff.mpr ⟨segment, inner, hcut, hclose⟩)
      rw [append_of_cut? hcut]
      exact stripComments_of_not_closed (no_mark_of_cut? (by decide) hcut) hinner

/-! ## Dissections -/

theorem length_lt_of_passage (passage : Passage) (rest : List Char) :
    rest.length < (passage.segment ++ comment passage.body ++ rest).length := by
  simp only [List.length_append, comment, openMark, List.length_cons]
  omega

/-- By induction on the length: what stands behind the first comment is shorter. -/
theorem exists_dissection (text : List Char) : ∃ parts : Dissection, parts.text = text := by
  induction hlength : text.length using Nat.strong_induction_on generalizing text with
  | _ length ih =>
    by_cases hspan : HasSpan text
    · obtain ⟨passage, rest, rfl⟩ := hspan.exists_first
      obtain ⟨parts, rfl⟩ := ih rest.length (hlength ▸ length_lt_of_passage passage rest) rest rfl
      exact ⟨.cons passage parts, rfl⟩
    · exact ⟨.rest text hspan, rfl⟩

/-- The first passage of a text and what stands behind it can be told from the text. -/
theorem Passage.append_inj {first second : Passage}
    (hsame : first.segment ++ comment first.body ++ left =
      second.segment ++ comment second.body ++ right) : first = second ∧ left = right := by
  have hcut : ∀ (passage : Passage) (rest : List Char),
      cut? openMark (passage.segment ++ comment passage.body ++ rest) =
        some (passage.segment, passage.body ++ closeMark ++ rest) := by
    intro passage rest
    rw [append_comment_append, cut?_openMark passage.no_open]
  have hopen := hcut first left
  rw [hsame, hcut second right, Option.some.injEq, Prod.mk.injEq] at hopen
  obtain ⟨hsegment, hinner⟩ := hopen
  have hclose : cut? closeMark (first.body ++ closeMark ++ left) = some (first.body, left) :=
    cut?_closeMark first.no_close
  rw [← hinner, cut?_closeMark second.no_close, Option.some.injEq, Prod.mk.injEq] at hclose
  obtain ⟨hbody, hrest⟩ := hclose
  cases first
  cases second
  cases hsegment
  cases hbody
  exact ⟨rfl, hrest.symm⟩

/-- A text without a span does not begin with a passage. -/
theorem Passage.append_ne (passage : Passage) (hnone : ¬ HasSpan text) (rest : List Char) :
    passage.segment ++ comment passage.body ++ rest ≠ text := by
  rintro rfl
  exact hnone ⟨passage.body, passage.segment, rest, rfl⟩

namespace Dissection

/-- A text has one dissection. By induction on the first: both begin with the same passage, or
neither has one. -/
theorem text_injective {first second : Dissection} (hsame : first.text = second.text) :
    first = second := by
  induction first generalizing second with
  | rest tail no_span =>
      cases second with
      | rest other _ =>
          have htail : tail = other := hsame
          subst other
          rfl
      | cons passage behind =>
          exact absurd hsame.symm (passage.append_ne no_span behind.text)
  | cons passage behind ih =>
      cases second with
      | rest other no_span =>
          exact absurd hsame (passage.append_ne no_span behind.text)
      | cons next others =>
          obtain ⟨hpassage, hbehind⟩ := Passage.append_inj hsame
          rw [hpassage, ih hbehind]

/-- Stripping comments keeps all but the comments. -/
theorem stripComments_text (parts : Dissection) : stripComments parts.text = parts.kept := by
  induction parts with
  | rest tail no_span => exact stripComments_of_no_span no_span
  | cons passage behind ih =>
      rw [text, stripComments_comment passage.no_open passage.no_close, ih, kept]

theorem length_kept_le (parts : Dissection) : parts.kept.length ≤ parts.text.length := by
  induction parts with
  | rest tail no_span => exact Nat.le_refl _
  | cons passage behind ih =>
      have hbehind := length_lt_of_passage passage behind.text
      simp only [kept, text, List.length_append] at hbehind ⊢
      omega

end Dissection

/-- A text with a span is stripped of something. -/
theorem stripComments_eq_self_iff : stripComments text = text ↔ ¬ HasSpan text := by
  constructor
  · intro hsame hspan
    obtain ⟨passage, rest, rfl⟩ := hspan.exists_first
    obtain ⟨behind, rfl⟩ := exists_dissection rest
    rw [stripComments_comment passage.no_open passage.no_close, behind.stripComments_text] at hsame
    have hlength := congrArg List.length hsame
    have hkept := behind.length_kept_le
    simp only [List.length_append, comment, openMark, List.length_cons] at hlength
    omega
  · exact stripComments_of_no_span

/-- What follows an opening mark that nothing closes is kept, and so is the mark. -/
theorem Closed.stripComments_append_openMark (hclosed : Closed left)
    (hright : ¬ closeMark <:+: right) :
    stripComments (left ++ openMark ++ right) = stripComments left ++ openMark ++ right := by
  have hseam : ¬ MakeMark left (openMark ++ right) := by
    rintro ⟨-, hstar⟩
    cases hstar
  have hkept : stripComments (openMark ++ right) = openMark ++ right :=
    stripComments_of_not_closed (show ¬ openMark <:+: [] by decide) hright
  rw [List.append_assoc, hclosed.stripComments_append hseam, hkept, List.append_assoc]

/-! ## The expression -/

/-- The expression `(?s)\(\*.*?\*\)`. -/
def commentPattern : Pattern :=
  (Pattern.literal openMark).followed (Pattern.anyReluctant.followed (.literal closeMark))

/-- A match takes an opening mark and what stands before the first closing mark behind it. -/
theorem head?_ends_commentPattern {before : List Char} :
    (commentPattern.ends ⟨before, text, none⟩).head? =
      (dropMark? openMark text).bind fun inner => (cut? closeMark inner).map fun pieces =>
        ⟨closeMark.reverse ++ (pieces.1.reverse ++ (openMark.reverse ++ before)), pieces.2, none⟩ := by
  have hends : commentPattern.ends ⟨before, text, none⟩ =
      ((Pattern.literal openMark).ends ⟨before, text, none⟩).flatMap
        (Pattern.anyReluctant.followed (.literal closeMark)).ends := rfl
  rw [hends, Pattern.ends_literal]
  cases hdrop : dropMark? openMark text with
  | none => rfl
  | some inner => simp [Pattern.head?_ends_anyReluctant]

theorem no_match_of_not_prefix {before : List Char} (hnot : ¬ openMark <+: text) :
    (commentPattern.ends ⟨before, text, none⟩).head? = none := by
  rw [head?_ends_commentPattern, dropMark?_eq_none.mpr hnot, Option.bind_none]

theorem no_match_of_no_span {before : List Char} (hnone : ¬ HasSpan text) :
    (commentPattern.ends ⟨before, text, none⟩).head? = none := by
  rw [head?_ends_commentPattern]
  cases hdrop : dropMark? openMark text with
  | none => rfl
  | some inner =>
      have hinner : cut? closeMark inner = none := by
        rw [cut?_eq_none (by decide)]
        intro hclose
        apply hnone
        rw [hasSpan_iff, append_of_dropMark? hdrop]
        exact ⟨[], inner, cut?_mark_append (by decide), hclose⟩
      rw [Option.bind_some, hinner, Option.map_none]

theorem match_comment {before body rest : List Char} (hbody : ¬ closeMark <:+: body) :
    (commentPattern.ends ⟨before, comment body ++ rest, none⟩).head? =
      some ⟨closeMark.reverse ++ (body.reverse ++ (openMark.reverse ++ before)), rest, none⟩ := by
  have hassoc : comment body ++ rest = openMark ++ (body ++ closeMark ++ rest) :=
    @append_comment_append body [] rest
  rw [head?_ends_commentPattern, hassoc, dropMark?_append, Option.bind_some, cut?_closeMark hbody,
    Option.map_some]

/-- An opening mark does not begin in a segment without one and end in the comment behind it. -/
theorem Passage.not_prefix (passage : Passage) (rest : List Char) {first back : List Char} {c : Char}
    (hsegment : passage.segment = first ++ c :: back) :
    ¬ openMark <+: c :: (back ++ (comment passage.body ++ rest)) := by
  intro hopen
  cases back with
  | nil => simp [openMark, comment] at hopen
  | cons d back =>
      obtain ⟨rfl, htail⟩ := List.cons_prefix_cons.mp hopen
      obtain ⟨rfl, -⟩ := List.cons_prefix_cons.mp htail
      apply passage.no_open
      rw [hsegment]
      exact ⟨first, back, by simp [openMark]⟩

/-- Removing what the expression matches keeps all but the comments. -/
theorem Dissection.removeAll_text (parts : Dissection) (before : List Char) :
    commentPattern.removeAll before parts.text = parts.kept := by
  induction parts generalizing before with
  | rest tail no_span =>
      have hnone : ∀ first c back, tail = first ++ c :: back → ∀ before,
          (commentPattern.ends ⟨before, c :: (back ++ []), none⟩).head? = none := by
        rintro first c back rfl before
        apply no_match_of_no_span
        rintro ⟨body, hbody⟩
        rw [List.append_nil] at hbody
        exact no_span ⟨body, hbody.trans (List.suffix_append first _).isInfix⟩
      have hkept : commentPattern.removeAll before (tail ++ []) = tail ++ _ :=
        Pattern.removeAll_append hnone
      rwa [Pattern.removeAll_nil, List.append_nil] at hkept
  | cons passage behind ih =>
      have hnone : ∀ first c back, passage.segment = first ++ c :: back → ∀ before,
          (commentPattern.ends ⟨before, c :: (back ++ (comment passage.body ++ behind.text)),
            none⟩).head? = none :=
        fun first c back hsegment before => no_match_of_not_prefix (passage.not_prefix _ hsegment)
      have hshort : behind.text.length < (comment passage.body ++ behind.text).length := by
        simp [comment, openMark]
        omega
      rw [text, kept, List.append_assoc, Pattern.removeAll_append hnone,
        Pattern.removeAll_of_match (match_comment passage.no_close) hshort, ih]

/-- Every text comes apart at its comments in one way, and stripping comments keeps the other parts.
So a text without a span is kept as it is, and so is what begins with an opening mark that nothing
closes. A search with the expression removes the same comments. -/
theorem stripComments_dissected :
    (∀ text : List Char, ∃! parts : Dissection, parts.text = text) ∧
    (∀ parts : Dissection, stripComments parts.text = parts.kept) ∧
    (∀ left right : List Char, Closed left → ¬ closeMark <:+: right →
      stripComments (left ++ openMark ++ right) = stripComments left ++ openMark ++ right) ∧
    (∀ text : List Char, stripComments text = text ↔ ¬ HasSpan text) ∧
    (∀ text : List Char, stripComments text = commentPattern.removeAll [] text) := by
  refine ⟨fun text => ?_, Dissection.stripComments_text,
    fun left right hclosed hright => hclosed.stripComments_append_openMark hright,
    fun text => stripComments_eq_self_iff, fun text => ?_⟩
  · obtain ⟨parts, hparts⟩ := exists_dissection text
    exact ⟨parts, hparts, fun other hother => Dissection.text_injective (hother.trans hparts.symm)⟩
  · obtain ⟨parts, rfl⟩ := exists_dissection text
    rw [parts.stripComments_text, parts.removeAll_text]

theorem stripComments_unclosedMark :
    Closed "a(*(*)b".toList ∧ ¬ closeMark <:+: ") *".toList ∧
    stripComments ("a(*(*)b".toList ++ openMark ++ ") *".toList) = "ab(*) *".toList := by
  have hclosed : Closed "a(*(*)b".toList :=
    @Closed.comment "a".toList "(".toList "b".toList (by decide) (by decide) (.segment (by decide))
  have hright : ¬ closeMark <:+: ") *".toList := by decide
  obtain ⟨-, -, hkept, -⟩ := stripComments_dissected
  exact ⟨hclosed, hright, (hkept _ _ hclosed hright).trans (by cbv)⟩

-- The first two marks share a star, so the first comment goes on to the third.
example : stripComments "(*)(**)((*(*)*)".toList = "(*)".toList := by cbv

end OberonImports.Source
