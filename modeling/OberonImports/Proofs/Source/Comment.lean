import Mathlib.Data.List.Basic
import OberonImports.Module
import OberonImports.Proofs.Text.Cut

/-!
# Texts with complete comments

In a closed text, complete comments stand between segments without an opening mark. Nothing that
follows a closed text changes how its comments are found, as long as the seam makes no opening mark.
So a complete comment behind a closed text is removed whatever it holds, and it leaves no trace in
the module that the text declares.
-/

namespace OberonImports.Source

open Text

variable {body segment text rest left right stripped : List Char}

/-- The comment with the given body. -/
def comment (body : List Char) : List Char := openMark ++ body ++ closeMark

/-- A text of segments without an opening mark, with a complete comment between each two. Segments
that meet are one segment and must not make an opening mark together: else every text would be
closed, each character a segment. -/
inductive Closed : List Char → Prop
  | segment {segment : List Char} (hsegment : ¬ openMark <:+: segment) : Closed segment
  | comment {segment body rest : List Char} (hsegment : ¬ openMark <:+: segment)
      (hbody : ¬ closeMark <:+: body) (hrest : Closed rest) :
      Closed (segment ++ comment body ++ rest)

/-- Two texts make an opening mark where they meet. -/
def MakeMark (left right : List Char) : Prop := left.getLast? = some '(' ∧ right.head? = some '*'

theorem openMark_infix_append :
    openMark <:+: left ++ right ↔ openMark <:+: left ∨ openMark <:+: right ∨ MakeMark left right :=
  pair_infix_append

theorem cut?_openMark (hsegment : ¬ openMark <:+: segment) :
    cut? openMark (segment ++ openMark ++ rest) = some (segment, rest) :=
  cut?_append (by decide) ((pair_infix_concat (by decide)).not.mpr hsegment)

theorem cut?_closeMark (hbody : ¬ closeMark <:+: body) :
    cut? closeMark (body ++ closeMark ++ rest) = some (body, rest) :=
  cut?_append (by decide) ((pair_infix_concat (by decide)).not.mpr hbody)

theorem stripComments_of_no_mark (hopen : ¬ openMark <:+: text) : stripComments text = text := by
  have hnone : cut? openMark text = none := (cut?_eq_none (by decide)).mpr hopen
  rw [stripComments]
  split
  next => rfl
  next hcut => rw [hnone] at hcut; cases hcut

/-- A text whose first opening mark nothing closes is kept. -/
theorem stripComments_of_not_closed (hsegment : ¬ openMark <:+: segment)
    (hbody : ¬ closeMark <:+: body) :
    stripComments (segment ++ openMark ++ body) = segment ++ openMark ++ body := by
  have hnone : cut? closeMark body = none := (cut?_eq_none (by decide)).mpr hbody
  rw [stripComments]
  split
  next => rfl
  next hcut =>
    rw [cut?_openMark hsegment] at hcut
    cases hcut
    split
    next => rfl
    next hclose => rw [hnone] at hclose; cases hclose

/-- The first complete comment of a text is removed. -/
theorem stripComments_comment (hsegment : ¬ openMark <:+: segment)
    (hbody : ¬ closeMark <:+: body) :
    stripComments (segment ++ comment body ++ rest) = segment ++ stripComments rest := by
  have hassoc : segment ++ comment body ++ rest =
      segment ++ openMark ++ (body ++ closeMark ++ rest) := by
    simp only [comment, List.append_assoc]
  rw [hassoc, stripComments]
  split
  next hcut => rw [cut?_openMark hsegment] at hcut; cases hcut
  next hcut =>
    rw [cut?_openMark hsegment] at hcut
    cases hcut
    split
    next hclose => rw [cut?_closeMark hbody] at hclose; cases hclose
    next hclose =>
      rw [cut?_closeMark hbody] at hclose
      cases hclose
      rfl

/-- A segment in front of a text is kept. -/
theorem stripComments_append_of_no_mark (hsegment : ¬ openMark <:+: segment)
    (hseam : ¬ MakeMark segment text) :
    stripComments (segment ++ text) = segment ++ stripComments text := by
  cases hcut : cut? openMark text with
  | none =>
      have hopen : ¬ openMark <:+: text := (cut?_eq_none (by decide)).mp hcut
      have hwhole : ¬ openMark <:+: segment ++ text := by
        rw [openMark_infix_append, not_or, not_or]
        exact ⟨hsegment, hopen, hseam⟩
      rw [stripComments_of_no_mark hopen, stripComments_of_no_mark hwhole]
  | some pieces =>
      obtain ⟨front, inner⟩ := pieces
      obtain rfl := append_of_cut? hcut
      have hfront : ¬ openMark <:+: front := no_mark_of_cut? (by decide) hcut
      have hwhole : ¬ openMark <:+: segment ++ front := by
        rw [openMark_infix_append, not_or, not_or]
        -- A star that begins the front also begins the text.
        refine ⟨hsegment, hfront, fun hmake => hseam ⟨hmake.1, ?_⟩⟩
        rw [List.append_assoc, List.head?_append, hmake.2]
        rfl
      rw [← List.append_assoc, ← List.append_assoc]
      cases hclose : cut? closeMark inner with
      | none =>
          have hbody : ¬ closeMark <:+: inner := (cut?_eq_none (by decide)).mp hclose
          rw [stripComments_of_not_closed hwhole hbody, stripComments_of_not_closed hfront hbody]
          simp only [List.append_assoc]
      | some pieces =>
          obtain ⟨body, rest⟩ := pieces
          have hbody : ¬ closeMark <:+: body := no_mark_of_cut? (by decide) hclose
          have hassoc : ∀ before : List Char,
              before ++ openMark ++ inner = before ++ comment body ++ rest := by
            intro before
            rw [append_of_cut? hclose, comment]
            simp only [List.append_assoc]
          rw [hassoc, hassoc, stripComments_comment hwhole hbody,
            stripComments_comment hfront hbody, List.append_assoc]

/-- What follows a closed text does not change how its comments are found. -/
theorem Closed.stripComments_append (hclosed : Closed left) (hseam : ¬ MakeMark left right) :
    stripComments (left ++ right) = stripComments left ++ stripComments right := by
  induction hclosed with
  | segment hsegment =>
      rw [stripComments_append_of_no_mark hsegment hseam, stripComments_of_no_mark hsegment]
  | @comment segment body rest hsegment hbody hrest ih =>
      have hseamRest : ¬ MakeMark rest right := by
        rintro ⟨hlast, hstar⟩
        exact hseam ⟨by rw [List.getLast?_append, hlast]; rfl, hstar⟩
      rw [List.append_assoc, stripComments_comment hsegment hbody,
        stripComments_comment hsegment hbody, ih hseamRest, List.append_assoc]

/-- A complete comment in front of a text is removed. -/
theorem stripComments_comment_append (hbody : ¬ closeMark <:+: body) :
    stripComments (comment body ++ text) = stripComments text := by
  have hempty : ¬ openMark <:+: [] := by decide
  exact stripComments_comment hempty hbody

/-- A comment begins with no star, so it makes no mark with what stands before it. -/
theorem not_makeMark_comment : ¬ MakeMark left (comment body ++ right) := by
  rintro ⟨-, hstar⟩
  cases hstar

theorem Closed.stripComments_comment_append (hclosed : Closed left)
    (hbody : ¬ closeMark <:+: body) :
    stripComments (left ++ Source.comment body ++ right) =
      stripComments left ++ stripComments right := by
  rw [List.append_assoc, hclosed.stripComments_append not_makeMark_comment,
    Source.stripComments_comment_append hbody]

/-- What a text declares depends on the text without its comments only. -/
theorem ofText?_congr (hsame : stripComments left = stripComments right) :
    Module.ofText? (.ofList left) = Module.ofText? (.ofList right) := by
  simp only [Module.ofText?, String.toList_ofList, hsame]

/-- Comments never influence extraction. A complete comment behind a closed text is removed, and
what stands on its two sides is read as if it stood alone. So the comment may hold anything, and it
may as well be missing, unless its two sides would make an opening mark together. -/
theorem comments_leave_no_trace (hclosed : Closed left) (hbody : ¬ closeMark <:+: body) :
    stripComments (left ++ comment body ++ right) = stripComments left ++ stripComments right ∧
    (∀ other, ¬ closeMark <:+: other →
      Module.ofText? (.ofList (left ++ comment body ++ right)) =
        Module.ofText? (.ofList (left ++ comment other ++ right))) ∧
    (¬ (left.getLast? = some '(' ∧ right.head? = some '*') →
      Module.ofText? (.ofList (left ++ comment body ++ right)) =
        Module.ofText? (.ofList (left ++ right))) := by
  have hstrip : stripComments (left ++ comment body ++ right) =
      stripComments left ++ stripComments right := hclosed.stripComments_comment_append hbody
  refine ⟨hstrip, fun other hother => ?_, fun hseam => ?_⟩
  · exact ofText?_congr (hstrip.trans (hclosed.stripComments_comment_append hother).symm)
  · exact ofText?_congr (hstrip.trans (hclosed.stripComments_append hseam).symm)

/-- A module whose name holds an opening parenthesis before a comment. -/
def nameBeforeComment : List Char := "MODULE A(".toList ++ comment ";".toList

set_option maxRecDepth 2000 in
theorem ofText?_nameBeforeComment :
    Closed nameBeforeComment ∧ ¬ closeMark <:+: ");IMPORT B;(* ".toList ∧
    stripComments (nameBeforeComment ++ comment ");IMPORT B;(* ".toList ++ ");IMPORT C;".toList) =
      "MODULE A();IMPORT C;".toList ∧
    Module.ofText? (.ofList
      (nameBeforeComment ++ comment ");IMPORT B;(* ".toList ++ ");IMPORT C;".toList)) =
        some ⟨"A()", ["C"], none⟩ := by
  have hclosed : Closed nameBeforeComment :=
    @Closed.comment "MODULE A(".toList ";".toList [] (by decide) (by decide)
      (.segment (by decide))
  have hbody : ¬ closeMark <:+: ");IMPORT B;(* ".toList := by decide
  have hbare : Module.ofText? (.ofList (nameBeforeComment ++ ");IMPORT C;".toList)) =
      some ⟨"A()", ["C"], none⟩ := by
    have htext : String.ofList (nameBeforeComment ++ ");IMPORT C;".toList) =
        "MODULE A((*;*));IMPORT C;" := by decide
    rw [htext]
    decide +kernel
  obtain ⟨hstrip, -, hmissing⟩ :=
    @comments_leave_no_trace _ _ ");IMPORT C;".toList hclosed hbody
  refine ⟨hclosed, hbody, hstrip.trans (by cbv), (hmissing (by decide)).trans hbare⟩

end OberonImports.Source
