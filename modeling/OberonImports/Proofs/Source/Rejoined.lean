import OberonImports.Proofs.Source.Dissection

/-!
# What stripping comments puts together

The text is read once: what stands around a comment is not read again when the comment is gone. So a
span in the stripped text is made where two kept texts meet, of an opening parenthesis before a
comment and a star behind it, and only then does stripping the result remove more.
-/

namespace OberonImports.Source

variable {text segment left right : List Char}

/-- Two texts make a span where they meet: an opening mark that is closed behind its star. -/
structure MakeSpan (left right : List Char) : Prop where
  mark : MakeMark left right
  closed : closeMark <:+: right.tail

theorem MakeSpan.hasSpan (hmake : MakeSpan left right) : HasSpan (left ++ right) := by
  obtain ⟨⟨hleft, hright⟩, hclosed⟩ := hmake
  obtain ⟨front, rfl⟩ := List.getLast?_eq_some_iff.mp hleft
  obtain ⟨inner, rfl⟩ := List.head?_eq_some_iff.mp hright
  obtain ⟨body, back, rfl⟩ : closeMark <:+: inner := hclosed
  refine ⟨body, front, back, ?_⟩
  rw [append_comment_append, openMark]
  simp only [List.append_assoc, List.cons_append, List.nil_append]

theorem MakeSpan.append_left (hmake : MakeSpan left right) : MakeSpan (segment ++ left) right where
  mark := ⟨by rw [List.getLast?_append, hmake.mark.1]; rfl, hmake.mark.2⟩
  closed := hmake.closed

/-- A span behind a segment without an opening mark stands in the text behind it or is made where
the two meet. -/
theorem HasSpan.of_append (hsegment : ¬ openMark <:+: segment) (hspan : HasSpan (segment ++ text)) :
    HasSpan text ∨ MakeSpan segment text := by
  obtain ⟨body, front, back, htext⟩ := hspan
  rw [List.append_assoc] at htext
  rcases List.append_eq_append_iff.mp htext with ⟨more, hsplit, hmore⟩ | ⟨more, -, hmore⟩
  · -- The segment ends before the mark, between its two characters, or behind it.
    match more with
    | [] =>
        left
        refine ⟨body, [], back, ?_⟩
        rw [List.nil_append]
        exact hmore
    | [c] =>
        right
        obtain ⟨rfl, htail⟩ := List.cons.inj hmore
        have hstar : text = '*' :: (body ++ closeMark ++ back) := htail.symm
        rw [hsplit, hstar]
        exact ⟨⟨List.getLast?_concat, rfl⟩, ⟨body, back, rfl⟩⟩
    | c :: d :: more =>
        obtain ⟨rfl, htail⟩ := List.cons.inj hmore
        obtain ⟨rfl, -⟩ := List.cons.inj htail
        exact absurd ⟨front, more, by rw [hsplit, openMark, List.append_assoc]; rfl⟩ hsegment
  · left
    exact ⟨body, more, back, by rw [hmore, List.append_assoc]⟩

/-- By induction on the dissection: a passage in front adds one place where two kept texts meet. -/
theorem exists_makeSpan (hspan : HasSpan (stripComments text)) : ∃ left body right,
    text = left ++ comment body ++ right ∧ Closed left ∧ ¬ closeMark <:+: body ∧
      MakeSpan (stripComments left) (stripComments right) := by
  obtain ⟨parts, rfl⟩ := exists_dissection text
  induction parts with
  | rest tail no_span =>
      rw [Dissection.text, stripComments_of_no_span no_span] at hspan
      exact absurd hspan no_span
  | cons passage behind ih =>
      obtain ⟨segment, body, no_open, no_close⟩ := passage
      simp only [Dissection.text] at hspan ⊢
      rw [stripComments_comment no_open no_close] at hspan
      rcases hspan.of_append no_open with hbehind | hmake
      · obtain ⟨left, inner, right, hbehind, hclosed, hinner, hmake⟩ := ih hbehind
        refine ⟨segment ++ comment body ++ left, inner, right, ?_, .comment no_open no_close hclosed,
          hinner, ?_⟩
        · rw [hbehind]
          simp only [List.append_assoc]
        · rw [stripComments_comment no_open no_close]
          exact hmake.append_left
      · refine ⟨segment, body, behind.text, rfl, .segment no_open, no_close, ?_⟩
        rwa [stripComments_of_no_mark no_open]

/-- A text is read once. What stripping its comments leaves holds a span exactly if the texts kept
around one of the comments make a span where they meet, and stripping again changes nothing exactly
if there is no such span. -/
theorem stripComments_reads_once (text : List Char) :
    (HasSpan (stripComments text) ↔ ∃ left body right,
      text = left ++ comment body ++ right ∧ Closed left ∧ ¬ closeMark <:+: body ∧
        MakeSpan (stripComments left) (stripComments right)) ∧
    (stripComments (stripComments text) = stripComments text ↔
      ¬ HasSpan (stripComments text)) := by
  refine ⟨⟨exists_makeSpan, ?_⟩, stripComments_eq_self_iff⟩
  rintro ⟨left, body, right, rfl, hclosed, hbody, hmake⟩
  rw [hclosed.stripComments_comment_append hbody]
  exact hmake.hasSpan

/-- The parenthesis before the comment and the star behind it begin another one. -/
theorem stripComments_joined_marks :
    stripComments "((**)* x *)".toList = "(* x *)".toList ∧
    HasSpan (stripComments "((**)* x *)".toList) ∧
    stripComments (stripComments "((**)* x *)".toList) ≠ stripComments "((**)* x *)".toList := by
  have hstripped : stripComments "((**)* x *)".toList = "(* x *)".toList := by cbv
  have hspan : HasSpan "(* x *)".toList := ⟨" x ".toList, [], [], by decide⟩
  rw [hstripped]
  exact ⟨rfl, hspan, fun hsame => stripComments_eq_self_iff.mp hsame hspan⟩

end OberonImports.Source
