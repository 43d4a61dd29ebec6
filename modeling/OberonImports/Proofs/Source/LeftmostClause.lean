import OberonImports.Proofs.Source.Clause
import OberonImports.Proofs.Text.Pattern

/-!
# The leftmost clause

A clause stands at a position of a text if no word character stands before the position and the
text goes on with the keyword, a body and the first semicolon behind it. The search finds the body
of the clause with the lowest position.

A regular expression finds the same clause. Its repetitions may share the blanks of a body in several
ways, so what it captures is the body with more or fewer of the blanks at its ends. Trimmed, the two
are the same, whichever match is preferred.
-/

namespace OberonImports.Source

open Text

variable {keyword text before body : List Char} {admits : Char → Bool} {c : Char} {position : ℕ}

/-- A clause of a keyword stands at a position of a text. -/
structure IsClause (keyword : List Char) (admits : Char → Bool) (text : List Char) (position : ℕ)
    (body : List Char) : Prop where
  boundary : ∀ c ∈ (text.take position).getLast?, isWordChar c = false
  reads : ∃ word rest, Spells word keyword ∧ text.drop position = word ++ body ++ ';' :: rest
  next : ';' ∉ body
  two_le : 2 ≤ body.length
  blank : ∀ c ∈ body.head?, isBlank c = true
  admitted : ∀ c ∈ body, admits c = true

/-- A clause before which no other begins. -/
structure IsLeftmostClause (keyword : List Char) (admits : Char → Bool) (text : List Char)
    (position : ℕ) (body : List Char) : Prop where
  isClause : IsClause keyword admits text position body
  leftmost : ∀ earlier < position, ∀ other, ¬ IsClause keyword admits text earlier other

/-- Of the clauses of a text, one stands before all others. -/
theorem IsClause.exists_leftmost (hclause : IsClause keyword admits text position body) :
    ∃ first list, IsLeftmostClause keyword admits text first list := by
  induction position using Nat.strong_induction_on generalizing body with
  | _ position ih =>
    by_cases hearlier : ∃ earlier < position, ∃ other, IsClause keyword admits text earlier other
    · obtain ⟨earlier, hlt, other, hother⟩ := hearlier
      exact ih earlier hlt hother
    · refine ⟨position, body, hclause, ?_⟩
      intro earlier hlt other hother
      exact hearlier ⟨earlier, hlt, other, hother⟩

/-! ## The search -/

/-- A clause begins behind the first `position` characters of a text that continues another one,
given with its last character first. -/
def StartsClause (keyword : List Char) (admits : Char → Bool) (before text : List Char)
    (position : ℕ) (body : List Char) : Prop :=
  ((text.take position).reverse ++ before).head?.any isWordChar = false ∧
    clauseAt? keyword admits (text.drop position) = some body

theorem startsClause_nil_iff :
    StartsClause keyword admits [] text position body ↔
      IsClause keyword admits text position body := by
  rw [StartsClause, clauseAt?_eq_some, isBody_eq_true, List.append_nil, List.head?_reverse,
    Option.any_eq_false]
  constructor
  · rintro ⟨hboundary, ⟨hlength, hblank, hadmits⟩, hnext, hreads⟩
    exact ⟨by simpa using hboundary, hreads, hnext, hlength, hblank, hadmits⟩
  · rintro ⟨hboundary, hreads, hnext, hlength, hblank, hadmits⟩
    exact ⟨by simpa using hboundary, ⟨hlength, hblank, hadmits⟩, hnext, hreads⟩

theorem startsClause_zero :
    StartsClause keyword admits before text 0 body ↔
      before.head?.any isWordChar = false ∧ clauseAt? keyword admits text = some body := Iff.rfl

theorem startsClause_succ :
    StartsClause keyword admits before (c :: text) (position + 1) body ↔
      StartsClause keyword admits (c :: before) text position body := by
  simp [StartsClause]

theorem clauseAt?_nil : clauseAt? keyword admits [] = none := by
  cases hclause : clauseAt? keyword admits [] with
  | none => rfl
  | some body =>
      obtain ⟨-, -, word, rest, -, htext⟩ := clauseAt?_eq_some.mp hclause
      simp at htext

/-- Where no clause starts, the search goes on. -/
theorem findClause?_cons_of_not_startsClause
    (hnone : ∀ other, ¬ StartsClause keyword admits before (c :: text) 0 other) :
    findClause? keyword admits (before.head?.any isWordChar) (c :: text) =
      findClause? keyword admits ((c :: before).head?.any isWordChar) text := by
  have hstop : (if before.head?.any isWordChar then none else clauseAt? keyword admits (c :: text)) =
      none := by
    split
    next => rfl
    next hfree =>
      cases hclause : clauseAt? keyword admits (c :: text) with
      | none => rfl
      | some body =>
          exact absurd (startsClause_zero.mpr ⟨Bool.eq_false_iff.mpr hfree, hclause⟩) (hnone body)
  simp [findClause?, hstop]

theorem findClause?_of_startsClause
    (hstart : StartsClause keyword admits before text 0 body) :
    findClause? keyword admits (before.head?.any isWordChar) text = some body := by
  obtain ⟨hfree, hclause⟩ := startsClause_zero.mp hstart
  cases text with
  | nil =>
      rw [clauseAt?_nil] at hclause
      cases hclause
  | cons c text => simp [findClause?, hfree, hclause]

theorem findClause?_eq_some_iff_startsClause :
    findClause? keyword admits (before.head?.any isWordChar) text = some body ↔
      ∃ position, StartsClause keyword admits before text position body ∧
        ∀ earlier < position, ∀ other, ¬ StartsClause keyword admits before text earlier other := by
  induction text generalizing before with
  | nil => simp [findClause?, StartsClause, clauseAt?_nil]
  | cons c text ih =>
      by_cases hstart : ∃ first, StartsClause keyword admits before (c :: text) 0 first
      · obtain ⟨first, hfirst⟩ := hstart
        rw [findClause?_of_startsClause hfirst]
        constructor
        · rintro ⟨⟩
          exact ⟨0, hfirst, fun _ hearlier => absurd hearlier (Nat.not_lt_zero _)⟩
        · rintro ⟨position, hposition, hleftmost⟩
          obtain rfl : position = 0 := by
            by_contra hne
            exact hleftmost 0 (Nat.pos_of_ne_zero hne) first hfirst
          exact hfirst.2.symm.trans hposition.2
      · have hnone : ∀ other, ¬ StartsClause keyword admits before (c :: text) 0 other :=
          not_exists.mp hstart
        rw [findClause?_cons_of_not_startsClause hnone, ih]
        constructor
        · rintro ⟨position, hposition, hleftmost⟩
          refine ⟨position + 1, startsClause_succ.mpr hposition, ?_⟩
          rintro (_ | earlier) hearlier other
          · exact hnone other
          · rw [startsClause_succ]
            exact hleftmost earlier (Nat.lt_of_succ_lt_succ hearlier) other
        · rintro ⟨_ | position, hposition, hleftmost⟩
          · exact absurd hposition (hnone body)
          · refine ⟨position, startsClause_succ.mp hposition, ?_⟩
            intro earlier hearlier other hother
            exact hleftmost (earlier + 1) (Nat.succ_lt_succ hearlier) other
              (startsClause_succ.mpr hother)

/-- The search finds the body of the leftmost clause. -/
theorem findClause?_eq_some_iff : findClause? keyword admits false text = some body ↔
    ∃ position, IsLeftmostClause keyword admits text position body := by
  have hsearch : findClause? keyword admits (([] : List Char).head?.any isWordChar) text =
      some body ↔ _ := findClause?_eq_some_iff_startsClause
  simp only [startsClause_nil_iff] at hsearch
  refine hsearch.trans (exists_congr fun position => ?_)
  exact ⟨fun ⟨hclause, hleftmost⟩ => ⟨hclause, hleftmost⟩,
    fun ⟨hclause, hleftmost⟩ => ⟨hclause, hleftmost⟩⟩

/-! ## The expression -/

/-- The keyword in any letter case at a word boundary, blanks, what is captured, what may stand
behind it and a semicolon. -/
def clausePattern (keyword : List Char) (captures : Char → Bool) (behind : Pattern) : Pattern :=
  .followed .wordBoundary <|
  .followed (.followed (.anyCase keyword) (.greedySome isBlank)) <|
  .followed (.group (.reluctantSome captures)) (.followed behind (.one (· = ';')))

/-- What is captured and what may stand behind it make up what a body admits, and only blanks may
stand behind it. -/
structure Fits (admits captures : Char → Bool) (behind : Pattern) (gap : List Char → Prop) :
    Prop where
  captures_iff : ∀ c, captures c = true ↔ admits c = true ∧ c ≠ ';'
  admits_blank : ∀ c, isBlank c = true → admits c = true
  accepts : behind.Accepts gap
  gap_nil : gap []
  gap_blank : ∀ run, gap run → ∀ c ∈ run, isBlank c = true

/-- A clause as the expression splits it up: blanks, the captured core and more blanks. -/
structure SplitClause (keyword : List Char) (captures : Char → Bool) (gap : List Char → Prop)
    (text front core back rest : List Char) : Prop where
  reads : ∃ word, Spells word keyword ∧ text = word ++ (front ++ core ++ back) ++ ';' :: rest
  front_ne_nil : front ≠ []
  front_blank : ∀ c ∈ front, isBlank c = true
  core_ne_nil : core ≠ []
  core_captured : ∀ c ∈ core, captures c = true
  back_gap : gap back

variable {captures : Char → Bool} {behind : Pattern} {gap : List Char → Prop} {last : Place}
  {front core back rest : List Char}

theorem accepts_opening (keyword : List Char) :
    (Pattern.followed (.anyCase keyword) (.greedySome isBlank)).Accepts fun run =>
      ∃ word front, run = word ++ front ∧ Spells word keyword ∧
        front ≠ [] ∧ ∀ c ∈ front, isBlank c = true :=
  (Pattern.accepts_anyCase keyword).followed Pattern.accepts_greedySome

theorem accepts_closing (haccepts : behind.Accepts gap) :
    (behind.followed (.one (· = ';'))).Accepts fun run => ∃ back, run = back ++ [';'] ∧ gap back := by
  refine (haccepts.followed Pattern.accepts_one).of_iff fun run => ?_
  constructor
  · rintro ⟨back, mark, rfl, hback, c, rfl, hc⟩
    obtain rfl : c = ';' := of_decide_eq_true hc
    exact ⟨back, rfl, hback⟩
  · rintro ⟨back, rfl, hback⟩
    exact ⟨back, [';'], rfl, hback, ';', rfl, decide_eq_true rfl⟩

/-- A match begins at a word boundary and splits up a clause. -/
theorem exists_splitClause_of_mem_ends (haccepts : behind.Accepts gap)
    (hlast : last ∈ (clausePattern keyword captures behind).ends ⟨before, text, none⟩) :
    (⟨before, text, none⟩ : Place).isWordBoundary = true ∧
      ∃ front core back rest, SplitClause keyword captures gap text front core back rest ∧
        last.captured = some core := by
  obtain ⟨_, hstart, hlast⟩ := Pattern.mem_ends_followed.mp hlast
  obtain ⟨hboundary, rfl⟩ := Pattern.mem_ends_wordBoundary.mp hstart
  obtain ⟨_, hopening, hlast⟩ := Pattern.mem_ends_followed.mp hlast
  obtain ⟨_, hcore, hclosing⟩ := Pattern.mem_ends_followed.mp hlast
  obtain ⟨_, text, ⟨word, front, rfl, hspells, hne, hfront⟩, hopens, rfl⟩ :=
    (accepts_opening keyword _ _).mp hopening
  obtain ⟨core, tail, ⟨hsome, hcaptures⟩, hsplits, rfl⟩ :=
    Pattern.accepts_reluctantSome.mem_ends_group.mp hcore
  obtain ⟨_, rest, ⟨back, rfl, hback⟩, hcloses, rfl⟩ := (accepts_closing haccepts _ _).mp hclosing
  refine ⟨hboundary, front, core, back, rest, ⟨⟨word, hspells, ?_⟩, hne, hfront, hsome, hcaptures,
    hback⟩, rfl⟩
  dsimp only at hopens hsplits hcloses
  simp [hopens, hsplits, hcloses]

/-- At a word boundary, every way to split up a clause is a match. -/
theorem exists_mem_ends_of_splitClause (haccepts : behind.Accepts gap)
    (hboundary : (⟨before, text, none⟩ : Place).isWordBoundary = true)
    (hsplit : SplitClause keyword captures gap text front core back rest) :
    ∃ last, last ∈ (clausePattern keyword captures behind).ends ⟨before, text, none⟩ := by
  obtain ⟨⟨word, hspells, rfl⟩, hne, hfront, hsome, hcaptures, hback⟩ := hsplit
  have htext : word ++ (front ++ core ++ back) ++ ';' :: rest =
      (word ++ front) ++ (core ++ ((back ++ [';']) ++ rest)) := by simp
  rw [htext] at hboundary ⊢
  have hopening := (accepts_opening keyword).mem_ends before
    (core ++ ((back ++ [';']) ++ rest)) none ⟨word, front, rfl, hspells, hne, hfront⟩
  have hcore := Pattern.accepts_reluctantSome.capture_mem_ends ((word ++ front).reverse ++ before)
    ((back ++ [';']) ++ rest) none ⟨hsome, hcaptures⟩
  have hclosing := (accepts_closing haccepts).mem_ends
    (core.reverse ++ ((word ++ front).reverse ++ before)) rest (some core) ⟨back, rfl, hback⟩
  exact ⟨_, Pattern.mem_ends_followed.mpr
    ⟨_, Pattern.mem_ends_wordBoundary.mpr ⟨hboundary, rfl⟩, Pattern.mem_ends_followed.mpr
      ⟨_, hopening, Pattern.mem_ends_followed.mpr ⟨_, hcore, hclosing⟩⟩⟩⟩

/-- What is split up is a clause, and trimming the core and the body comes to the same. -/
theorem SplitClause.exists_clauseAt? (hfits : Fits admits captures behind gap)
    (hsplit : SplitClause keyword captures gap text front core back rest) :
    ∃ body, clauseAt? keyword admits text = some body ∧ trim core = trim body := by
  obtain ⟨⟨word, hspells, rfl⟩, hne, hfront, hsome, hcaptures, hback⟩ := hsplit
  have hblank := hfits.gap_blank back hback
  refine ⟨front ++ core ++ back, clauseAt?_eq_some.mpr ⟨?_, ?_, word, rest, hspells, rfl⟩,
    (trim_blanks_append hfront hblank).symm⟩
  · rw [List.append_assoc]
    refine isBody_append hne hfront (by simp [hsome]) ?_
    intro c hc
    rcases List.mem_append.mp hc with hc | hc
    · exact hfits.admits_blank c (hfront c hc)
    · rcases List.mem_append.mp hc with hc | hc
      · exact ((hfits.captures_iff c).mp (hcaptures c hc)).1
      · exact hfits.admits_blank c (hblank c hc)
  · have hsemicolon : ¬ isBlank ';' = true := by decide
    simp only [List.mem_append, not_or]
    exact ⟨⟨fun hc => hsemicolon (hfront _ hc),
      fun hc => ((hfits.captures_iff _).mp (hcaptures _ hc)).2 rfl⟩,
      fun hc => hsemicolon (hblank _ hc)⟩

/-- A clause can be split up behind its first blank. -/
theorem exists_splitClause (hfits : Fits admits captures behind gap)
    (hclause : clauseAt? keyword admits text = some body) :
    ∃ front core back rest, SplitClause keyword captures gap text front core back rest := by
  obtain ⟨hbody, hnext, word, rest, hspells, rfl⟩ := clauseAt?_eq_some.mp hclause
  obtain ⟨hlength, hblank, hadmits⟩ := isBody_eq_true.mp hbody
  obtain ⟨first, core, rfl⟩ := List.exists_cons_of_length_pos (Nat.zero_lt_of_lt hlength)
  refine ⟨[first], core, [], rest, ⟨⟨word, hspells, by simp⟩, by simp, ?_, ?_, ?_,
    hfits.gap_nil⟩⟩
  · intro c hc
    exact hblank c (by simpa [eq_comm] using hc)
  · rintro rfl
    simp at hlength
  · intro c hc
    refine (hfits.captures_iff c).mpr ⟨hadmits c (List.mem_cons_of_mem _ hc), ?_⟩
    rintro rfl
    exact hnext (List.mem_cons_of_mem _ hc)

/-- Where a clause begins, there is a word boundary unless a word character stands before it. -/
theorem isWordBoundary_of_clauseAt? (hkeyword : IsKeyword keyword)
    (hclause : clauseAt? keyword admits text = some body) :
    (⟨before, text, none⟩ : Place).isWordBoundary = !before.head?.any isWordChar := by
  obtain ⟨-, -, word, rest, hspells, rfl⟩ := clauseAt?_eq_some.mp hclause
  obtain ⟨first, tail, rfl⟩ := List.exists_cons_of_ne_nil (hspells.ne_nil hkeyword)
  have hfirst : isWordChar first = true := hspells.isWordChar hkeyword List.mem_cons_self
  simp [Place.isWordBoundary, hfirst]

theorem startsClause_of_mem_ends (hkeyword : IsKeyword keyword)
    (hfits : Fits admits captures behind gap)
    (hlast : last ∈ (clausePattern keyword captures behind).ends ⟨before, text, none⟩) :
    ∃ body, StartsClause keyword admits before text 0 body ∧
      last.captured.map trim = some (trim body) := by
  obtain ⟨hboundary, front, core, back, rest, hsplit, hcaptured⟩ :=
    exists_splitClause_of_mem_ends hfits.accepts hlast
  obtain ⟨body, hclause, htrim⟩ := hsplit.exists_clauseAt? hfits
  rw [isWordBoundary_of_clauseAt? hkeyword hclause, Bool.not_eq_true'] at hboundary
  exact ⟨body, startsClause_zero.mpr ⟨hboundary, hclause⟩, by rw [hcaptured, Option.map_some, htrim]⟩

theorem exists_mem_ends_of_startsClause (hkeyword : IsKeyword keyword)
    (hfits : Fits admits captures behind gap)
    (hstart : StartsClause keyword admits before text 0 body) :
    ∃ last, last ∈ (clausePattern keyword captures behind).ends ⟨before, text, none⟩ := by
  obtain ⟨hfree, hclause⟩ := startsClause_zero.mp hstart
  obtain ⟨front, core, back, rest, hsplit⟩ := exists_splitClause hfits hclause
  refine exists_mem_ends_of_splitClause hfits.accepts ?_ hsplit
  rw [isWordBoundary_of_clauseAt? hkeyword hclause, hfree, Bool.not_false]

theorem ends_eq_nil_of_not_startsClause (hkeyword : IsKeyword keyword)
    (hfits : Fits admits captures behind gap)
    (hnone : ∀ other, ¬ StartsClause keyword admits before text 0 other) :
    (clausePattern keyword captures behind).ends ⟨before, text, none⟩ = [] := by
  refine List.eq_nil_iff_forall_not_mem.mpr fun last hlast => ?_
  obtain ⟨body, hstart, -⟩ := startsClause_of_mem_ends hkeyword hfits hlast
  exact hnone body hstart

theorem search_clausePattern (hkeyword : IsKeyword keyword)
    (hfits : Fits admits captures behind gap) :
    (((clausePattern keyword captures behind).search before text).bind Place.captured).map trim =
      (findClause? keyword admits (before.head?.any isWordChar) text).map trim := by
  induction text generalizing before with
  | nil =>
      have hnone : ∀ other, ¬ StartsClause keyword admits before [] 0 other := by
        simp [StartsClause, clauseAt?_nil]
      simp [Pattern.search, ends_eq_nil_of_not_startsClause hkeyword hfits hnone, findClause?]
  | cons c text ih =>
      by_cases hstart : ∃ first, StartsClause keyword admits before (c :: text) 0 first
      · obtain ⟨first, hfirst⟩ := hstart
        obtain ⟨last, hlast⟩ := exists_mem_ends_of_startsClause hkeyword hfits hfirst
        obtain ⟨preferred, hpreferred, hsearch⟩ := Pattern.search_of_mem_ends hlast
        obtain ⟨body, hbody, htrim⟩ := startsClause_of_mem_ends hkeyword hfits hpreferred
        rw [hsearch, findClause?_of_startsClause hbody, Option.bind_some, htrim, Option.map_some]
      · have hnone : ∀ other, ¬ StartsClause keyword admits before (c :: text) 0 other :=
          not_exists.mp hstart
        rw [Pattern.search_cons_of_ends_eq_nil
            (ends_eq_nil_of_not_startsClause hkeyword hfits hnone),
          findClause?_cons_of_not_startsClause hnone, ih]

/-- Trimmed, what the expression captures is the body that the search finds. -/
theorem map_trim_capture?_clausePattern (hkeyword : IsKeyword keyword)
    (hfits : Fits admits captures behind gap) :
    ((clausePattern keyword captures behind).capture? text).map trim =
      (findClause? keyword admits false text).map trim :=
  search_clausePattern hkeyword hfits

end OberonImports.Source
