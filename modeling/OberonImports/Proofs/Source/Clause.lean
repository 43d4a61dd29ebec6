import OberonImports.Proofs.Text.Blank
import OberonImports.Source.Clause

/-!
# Where a clause is found

A clause stands at the front of a text if the text begins with the keyword in some letter case, a
body and a semicolon. The search passes over characters that do not begin a word and over words that
are not the keyword. Where it finds a clause, the keyword is a word of its own, so a text without
such a word has no clause.
-/

namespace OberonImports.Source

open Text

variable {keyword text rest gap word body : List Char} {admits : Char → Bool} {inWord : Bool}
  {c : Char}

/-- A word is a keyword in some letter case. -/
def Spells (word keyword : List Char) : Prop := word.map Char.toUpper = keyword

instance : Decidable (Spells word keyword) := inferInstanceAs (Decidable (_ = _))

/-- A keyword has a letter, and all of it is capital letters. -/
structure IsKeyword (keyword : List Char) : Prop where
  ne_nil : keyword ≠ []
  isUpper : ∀ k ∈ keyword, k.isUpper = true

/-- The keyword stands in a text, in some letter case and as a word of its own. -/
def HasKeyword (keyword text : List Char) : Prop :=
  ∃ before word after, text = before ++ word ++ after ∧ Spells word keyword ∧
    (∀ c ∈ before.getLast?, isWordChar c = false) ∧ ∀ c ∈ after.head?, isWordChar c = false

theorem dropKeyword?_eq_some :
    dropKeyword? keyword text = some rest ↔ ∃ word, Spells word keyword ∧ text = word ++ rest := by
  fun_induction dropKeyword? keyword text with
  | case1 text => simp [Spells, eq_comm]
  | case2 k keyword =>
      simp only [reduceCtorEq, false_iff, not_exists, not_and]
      rintro word hspells htext
      obtain ⟨rfl, -⟩ := List.append_eq_nil_iff.mp htext.symm
      cases hspells
  | case3 keyword c text ih =>
      rw [ih]
      constructor
      · rintro ⟨word, hspells, rfl⟩
        exact ⟨c :: word, by rw [Spells, List.map_cons, hspells], rfl⟩
      · rintro ⟨word, hspells, htext⟩
        obtain ⟨first, tail, rfl, -, htail⟩ := List.map_eq_cons_iff.mp hspells
        obtain ⟨rfl, rfl⟩ := List.cons.inj htext
        exact ⟨tail, htail, rfl⟩
  | case4 k keyword c text hne =>
      simp only [reduceCtorEq, false_iff, not_exists, not_and]
      rintro word hspells htext
      obtain ⟨first, tail, rfl, hfirst, -⟩ := List.map_eq_cons_iff.mp hspells
      obtain ⟨rfl, -⟩ := List.cons.inj htext
      exact hne hfirst

theorem isBody_eq_true : isBody admits body = true ↔
    2 ≤ body.length ∧ (∀ c ∈ body.head?, isBlank c = true) ∧ ∀ c ∈ body, admits c = true := by
  match body with
  | [] => simp [isBody]
  | [_] => simp [isBody]
  | first :: second :: rest => simp [isBody]

/-- Blanks and something behind them make a body. -/
theorem isBody_append {front core : List Char} (hsome : front ≠ [])
    (hblank : ∀ c ∈ front, isBlank c = true) (hne : core ≠ [])
    (hadmits : ∀ c ∈ front ++ core, admits c = true) : isBody admits (front ++ core) = true := by
  obtain ⟨first, rest, rfl⟩ := List.exists_cons_of_ne_nil hsome
  have hlength := List.length_pos_iff.mpr hne
  refine isBody_eq_true.mpr ⟨?_, ?_, hadmits⟩
  · simp only [List.cons_append, List.length_cons, List.length_append]
    omega
  · rintro c hc
    obtain rfl : first = c := Option.some.inj hc
    exact hblank first List.mem_cons_self

/-- The part of a text before its first semicolon, if there is one. -/
theorem takeWhile_semicolon :
    (text.takeWhile (· ≠ ';') = body ∧ body.length < text.length) ↔
      ';' ∉ body ∧ ∃ rest, text = body ++ ';' :: rest := by
  constructor
  · rintro ⟨rfl, hlength⟩
    have hsplit : text.takeWhile (· ≠ ';') ++ text.dropWhile (· ≠ ';') = text :=
      List.takeWhile_append_dropWhile
    have hpassed := List.all_eq_true.mp (List.all_takeWhile (p := (· ≠ ';')) (l := text))
    refine ⟨fun hmem => of_decide_eq_true (hpassed ';' hmem) rfl, ?_⟩
    have hstop := List.head?_dropWhile_not (· ≠ ';') text
    cases hrest : text.dropWhile (· ≠ ';') with
    | nil =>
        rw [hrest, List.append_nil] at hsplit
        rw [hsplit] at hlength
        exact absurd hlength (Nat.lt_irrefl _)
    | cons c rest =>
        rw [hrest] at hstop hsplit
        obtain rfl : c = ';' := by simpa using hstop
        exact ⟨rest, hsplit.symm⟩
  · rintro ⟨hnone, rest, rfl⟩
    have hpass : ∀ c ∈ body, decide (c ≠ ';') = true := by
      intro c hc
      exact decide_eq_true fun heq => hnone (heq ▸ hc)
    rw [List.takeWhile_append_of_pos hpass]
    simp

/-- What stands at the front of a text with a clause. -/
theorem clauseAt?_eq_some : clauseAt? keyword admits text = some body ↔
    isBody admits body = true ∧ ';' ∉ body ∧
      ∃ word rest, Spells word keyword ∧ text = word ++ body ++ ';' :: rest := by
  unfold clauseAt?
  constructor
  · intro hclause
    split at hclause
    next => cases hclause
    next rest hdrop =>
      obtain ⟨word, hspells, rfl⟩ := dropKeyword?_eq_some.mp hdrop
      simp only [Option.ite_none_right_eq_some, Option.some.injEq] at hclause
      obtain ⟨⟨hlength, hbody⟩, rfl⟩ := hclause
      obtain ⟨hnone, after, hafter⟩ := takeWhile_semicolon.mp ⟨rfl, hlength⟩
      exact ⟨hbody, hnone, word, after, hspells, by rw [List.append_assoc, ← hafter]⟩
  · rintro ⟨hbody, hnone, word, rest, hspells, rfl⟩
    have hdrop : dropKeyword? keyword (word ++ body ++ ';' :: rest) = some (body ++ ';' :: rest) :=
      dropKeyword?_eq_some.mpr ⟨word, hspells, List.append_assoc ..⟩
    obtain ⟨htake, hlength⟩ := takeWhile_semicolon.mpr ⟨hnone, rest, rfl⟩
    simp only [hdrop]
    rw [htake, if_pos ⟨hlength, hbody⟩]

/-- The characters of a spelled keyword are letters. -/
theorem Spells.isIdentChar (hspells : Spells word keyword) (hkeyword : IsKeyword keyword)
    (hc : c ∈ word) : isIdentChar c = true := by
  have hcapital : c.toUpper ∈ keyword := hspells ▸ List.mem_map_of_mem hc
  exact isIdentChar_of_toUpper rfl (hkeyword.isUpper _ hcapital)

theorem Spells.isWordChar (hspells : Spells word keyword) (hkeyword : IsKeyword keyword)
    (hc : c ∈ word) : isWordChar c = true :=
  isWordChar_of_isIdentChar (hspells.isIdentChar hkeyword hc)

theorem Spells.ne_nil (hspells : Spells word keyword) (hkeyword : IsKeyword keyword) :
    word ≠ [] := by
  rintro rfl
  exact hkeyword.ne_nil hspells.symm

/-- Every letter of a keyword that stands in a text is in the text, in some case. -/
theorem HasKeyword.exists_mem {k : Char} (hkeyword : HasKeyword keyword text) (hk : k ∈ keyword) :
    ∃ c ∈ text, c.toUpper = k := by
  obtain ⟨before, word, after, rfl, hspells, -⟩ := hkeyword
  obtain ⟨c, hc, hcapital⟩ := List.mem_map.mp (hspells.symm ▸ hk)
  exact ⟨c, by simp [hc], hcapital⟩

/-- No clause begins with a character that is no word character. -/
theorem clauseAt?_cons_eq_none (hkeyword : IsKeyword keyword) (hc : isWordChar c = false) :
    clauseAt? keyword admits (c :: text) = none := by
  cases hclause : clauseAt? keyword admits (c :: text) with
  | none => rfl
  | some body =>
      obtain ⟨-, -, word, rest, hspells, htext⟩ := clauseAt?_eq_some.mp hclause
      obtain ⟨first, tail, rfl⟩ := List.exists_cons_of_ne_nil (hspells.ne_nil hkeyword)
      obtain ⟨rfl, -⟩ := List.cons.inj htext
      rw [hspells.isWordChar hkeyword List.mem_cons_self] at hc
      cases hc

/-- No clause begins with a word that is not the keyword. -/
theorem clauseAt?_word_eq_none (hkeyword : IsKeyword keyword)
    (hword : ∀ c ∈ word, isWordChar c = true) (hother : ¬ Spells word keyword)
    (hc : isWordChar c = false) : clauseAt? keyword admits (word ++ c :: rest) = none := by
  cases hclause : clauseAt? keyword admits (word ++ c :: rest) with
  | none => rfl
  | some body =>
      obtain ⟨hbody, -, spelled, after, hspells, htext⟩ := clauseAt?_eq_some.mp hclause
      obtain ⟨hlength, hblank, -⟩ := isBody_eq_true.mp hbody
      rw [List.append_assoc] at htext
      -- The word ends where the keyword ends, before it, or behind it.
      rcases List.append_eq_append_iff.mp htext with ⟨more, hspelled, hmore⟩ | ⟨more, hmore, hrest⟩
      · match more with
        | [] => exact absurd (by rwa [hspelled, List.append_nil] at hspells) hother
        | first :: more =>
            obtain ⟨rfl, -⟩ := List.cons.inj hmore
            rw [hspells.isWordChar hkeyword (by simp [hspelled])] at hc
            cases hc
      · match more with
        | [] => exact absurd (by rwa [hmore, List.append_nil]) hother
        | first :: more =>
            have hhead : body.head? = some first := by
              cases body with
              | nil => simp at hlength
              | cons start body => exact congrArg some (List.cons.inj hrest).1
            have hfirst : isWordChar first = true := hword first (by simp [hmore])
            rw [not_isWordChar_of_isBlank (hblank first hhead)] at hfirst
            cases hfirst

/-! ## The search -/

theorem findClause?_of_clauseAt? (hclause : clauseAt? keyword admits text = some body)
    (hne : text ≠ []) : findClause? keyword admits false text = some body := by
  obtain ⟨c, rest, rfl⟩ := List.exists_cons_of_ne_nil hne
  simp [findClause?, hclause]

/-- The search passes over characters that are no word characters. -/
theorem findClause?_gap_append (hkeyword : IsKeyword keyword)
    (hgap : ∀ c ∈ gap, isWordChar c = false) :
    findClause? keyword admits false (gap ++ text) = findClause? keyword admits false text := by
  induction gap with
  | nil => rfl
  | cons c gap ih =>
      obtain ⟨hc, hrest⟩ := List.forall_mem_cons.mp hgap
      rw [List.cons_append, findClause?]
      simp only [Bool.false_eq_true, if_false, clauseAt?_cons_eq_none hkeyword hc, hc, ih hrest]

/-- The search finds a clause behind characters that are no word characters. -/
theorem findClause?_clause (hkeyword : IsKeyword keyword) (hgap : ∀ c ∈ gap, isWordChar c = false)
    (hspells : Spells word keyword) (hbody : isBody admits body = true) (hnone : ';' ∉ body) :
    findClause? keyword admits false (gap ++ word ++ body ++ [';'] ++ rest) = some body := by
  have hassoc : gap ++ word ++ body ++ [';'] ++ rest = gap ++ (word ++ body ++ ';' :: rest) := by
    simp only [List.append_assoc, List.cons_append, List.nil_append]
  rw [hassoc, findClause?_gap_append hkeyword hgap]
  exact findClause?_of_clauseAt? (clauseAt?_eq_some.mpr ⟨hbody, hnone, word, rest, hspells, rfl⟩)
    (by simp)

/-- Inside a word, the search passes over the rest of the word. -/
theorem findClause?_inWord_append (hword : ∀ c ∈ word, isWordChar c = true)
    (hc : isWordChar c = false) :
    findClause? keyword admits true (word ++ c :: rest) =
      findClause? keyword admits false rest := by
  induction word with
  | nil => simp [findClause?, hc]
  | cons first word ih =>
      obtain ⟨hfirst, hrest⟩ := List.forall_mem_cons.mp hword
      simp [findClause?, hfirst, ih hrest]

/-- The search passes over a word that is not the keyword. -/
theorem findClause?_word_append (hkeyword : IsKeyword keyword) (hne : word ≠ [])
    (hword : ∀ c ∈ word, isWordChar c = true) (hother : ¬ Spells word keyword)
    (hc : isWordChar c = false) :
    findClause? keyword admits false (word ++ c :: rest) =
      findClause? keyword admits false rest := by
  have hnone : clauseAt? keyword admits (word ++ c :: rest) = none :=
    clauseAt?_word_eq_none hkeyword hword hother hc
  obtain ⟨first, tail, rfl⟩ := List.exists_cons_of_ne_nil hne
  obtain ⟨hfirst, htail⟩ := List.forall_mem_cons.mp hword
  rw [List.cons_append] at hnone ⊢
  rw [findClause?]
  simp only [Bool.false_eq_true, if_false, hnone, hfirst, findClause?_inWord_append htail hc]

/-- The search passes over a word that is not the keyword and a gap behind it. -/
theorem findClause?_word_gap_append (hkeyword : IsKeyword keyword) (hne : word ≠ [])
    (hword : ∀ c ∈ word, isWordChar c = true) (hother : ¬ Spells word keyword) (hsome : gap ≠ [])
    (hgap : ∀ c ∈ gap, isWordChar c = false) :
    findClause? keyword admits false (word ++ gap ++ text) =
      findClause? keyword admits false text := by
  obtain ⟨c, rest, rfl⟩ := List.exists_cons_of_ne_nil hsome
  obtain ⟨hc, hrest⟩ := List.forall_mem_cons.mp hgap
  rw [List.append_assoc, List.cons_append, findClause?_word_append hkeyword hne hword hother hc,
    findClause?_gap_append hkeyword hrest]

/-- A clause that is found stands in the text, and no word character stands before it. -/
theorem exists_clauseAt?_of_findClause?
    (hclause : findClause? keyword admits inWord text = some body) :
    ∃ before rest, text = before ++ rest ∧ clauseAt? keyword admits rest = some body ∧
      (∀ c ∈ before.getLast?, isWordChar c = false) ∧ (before = [] → inWord = false) := by
  induction text generalizing inWord with
  | nil => cases hclause
  | cons c text ih =>
      rw [findClause?] at hclause
      split at hclause
      next found hfound =>
        obtain rfl := Option.some.inj hclause
        cases inWord with
        | true => cases hfound
        | false => exact ⟨[], c :: text, rfl, hfound, by simp, fun _ => rfl⟩
      next =>
        obtain ⟨before, rest, rfl, hat, hlast, hstart⟩ := ih hclause
        refine ⟨c :: before, rest, rfl, hat, ?_, by simp⟩
        cases before with
        | nil => simpa using hstart rfl
        | cons next before => simpa using hlast

/-- A text without the keyword as a word of its own has no clause. -/
theorem findClause?_eq_none (hnone : ¬ HasKeyword keyword text) :
    findClause? keyword admits inWord text = none := by
  cases hclause : findClause? keyword admits inWord text with
  | none => rfl
  | some body =>
      obtain ⟨before, rest, rfl, hat, hlast, -⟩ := exists_clauseAt?_of_findClause? hclause
      obtain ⟨hbody, -, word, after, hspells, rfl⟩ := clauseAt?_eq_some.mp hat
      obtain ⟨hlength, hblank, -⟩ := isBody_eq_true.mp hbody
      refine absurd ⟨before, word, body ++ ';' :: after, by simp, hspells, hlast, ?_⟩ hnone
      intro c hc
      cases body with
      | nil => simp at hlength
      | cons first body =>
          obtain rfl : first = c := Option.some.inj hc
          exact not_isWordChar_of_isBlank (hblank first rfl)

end OberonImports.Source
