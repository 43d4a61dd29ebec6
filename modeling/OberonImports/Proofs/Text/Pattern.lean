import OberonImports.Proofs.Text.Blank

/-!
# Regular expressions

A regular expression is matched at a place of a text, with what stands before the place in view. It
may match in several ways, and these come in an order of preference: a greedy repetition prefers to
go on, a reluctant one prefers to stop. A search finds the leftmost place with a match, and of its
matches the preferred one.

Which matches there are does not depend on the preferences. A pattern accepts a language if its
matches are what the language has at the front of the text.
-/

namespace OberonImports.Text

/-- A regular expression in which only single characters are repeated. -/
inductive Pattern where
  | empty
  | wordBoundary
  | one (admits : Char → Bool)
  | followed (first second : Pattern)
  | greedy (admits : Char → Bool)
  | reluctant (admits : Char → Bool)
  | group (inner : Pattern)

/-- A place in a text: what stands before it, the nearest character first, what is to come, and what
a group captured on the way. -/
structure Place where
  before : List Char
  rest : List Char
  captured : Option (List Char)

namespace Place

def isWordBoundary (place : Place) : Bool :=
  place.before.head?.any isWordChar != place.rest.head?.any isWordChar

/-- The place behind the first `count` characters. -/
def pass (place : Place) (count : ℕ) : Place :=
  ⟨(place.rest.take count).reverse ++ place.before, place.rest.drop count, place.captured⟩

/-- The place `last` with what stands between the two as the capture. -/
def capture (place last : Place) : Place :=
  { last with captured := some (place.rest.take (place.rest.length - last.rest.length)) }

end Place

namespace Pattern

/-- How many admitted characters a repetition may take from the front of a text, fewest first. -/
def counts (admits : Char → Bool) (text : List Char) : List ℕ :=
  List.range ((text.takeWhile admits).length + 1)

/-- The places where a match that begins at `place` may end, in order of preference. -/
def ends : Pattern → Place → List Place
  | empty, place => [place]
  | wordBoundary, place => if place.isWordBoundary then [place] else []
  | one admits, place => if place.rest.head?.any admits then [place.pass 1] else []
  | followed first second, place => (first.ends place).flatMap second.ends
  | greedy admits, place => (counts admits place.rest).reverse.map place.pass
  | reluctant admits, place => (counts admits place.rest).map place.pass
  | group inner, place => (inner.ends place).map place.capture

/-- Where the preferred match ends at the leftmost place that has a match. -/
def search (pattern : Pattern) (before : List Char) : List Char → Option Place
  | [] => (pattern.ends ⟨before, [], none⟩).head?
  | c :: text =>
      (pattern.ends ⟨before, c :: text, none⟩).head? <|> pattern.search (c :: before) text

/-- What the group of a pattern captures in a text. -/
def capture? (pattern : Pattern) (text : List Char) : Option (List Char) :=
  (pattern.search [] text).bind Place.captured

/-- One admitted character and then any number of them, as many as possible first. -/
def greedySome (admits : Char → Bool) : Pattern := (one admits).followed (greedy admits)

/-- One admitted character and then any number of them, as few as possible first. -/
def reluctantSome (admits : Char → Bool) : Pattern := (one admits).followed (reluctant admits)

/-- A word given in capitals, in any letter case. -/
def anyCase : List Char → Pattern
  | [] => empty
  | k :: word => (one (·.toUpper = k)).followed (anyCase word)

/-! ## Languages -/

variable {pattern first second : Pattern} {language other : List Char → Prop}
  {admits : Char → Bool} {place last : Place}

/-- The matches of a pattern are what the language has at the front of the text. -/
def Accepts (pattern : Pattern) (language : List Char → Prop) : Prop :=
  ∀ place last, last ∈ pattern.ends place ↔ ∃ run rest, language run ∧ place.rest = run ++ rest ∧
    last = ⟨run.reverse ++ place.before, rest, place.captured⟩

theorem mem_ends_followed :
    last ∈ (first.followed second).ends place ↔
      ∃ middle ∈ first.ends place, last ∈ second.ends middle := List.mem_flatMap

theorem mem_ends_wordBoundary :
    last ∈ wordBoundary.ends place ↔ place.isWordBoundary = true ∧ last = place := by
  rw [ends, List.mem_ite_nil_right, List.mem_singleton]

theorem accepts_empty : empty.Accepts (· = []) := by
  intro place last
  simp [ends]

theorem accepts_one : (one admits).Accepts (fun run => ∃ c, run = [c] ∧ admits c = true) := by
  rintro ⟨before, text, captured⟩ last
  cases text with
  | nil => simp [ends]
  | cons c text =>
      have hends : (one admits).ends ⟨before, c :: text, captured⟩ =
          if admits c then [⟨c :: before, text, captured⟩] else [] := rfl
      rw [hends, List.mem_ite_nil_right, List.mem_singleton]
      constructor
      · rintro ⟨hc, rfl⟩
        exact ⟨[c], text, ⟨c, rfl, hc⟩, rfl, rfl⟩
      · rintro ⟨run, rest, ⟨d, rfl, hd⟩, htext, rfl⟩
        obtain ⟨rfl, rfl⟩ := List.cons.inj htext
        exact ⟨hd, rfl⟩

theorem mem_counts {text : List Char} {count : ℕ} : count ∈ counts admits text ↔
    count ≤ text.length ∧ ∀ c ∈ text.take count, admits c = true := by
  rw [counts, List.mem_range, Nat.lt_succ_iff]
  induction text generalizing count with
  | nil => simp
  | cons c text ih =>
      cases count with
      | zero => simp
      | succ count => by_cases hc : admits c = true <;> simp [hc, ih]

theorem mem_map_pass_counts : last ∈ (counts admits place.rest).map place.pass ↔
    ∃ run rest, (∀ c ∈ run, admits c = true) ∧ place.rest = run ++ rest ∧
      last = ⟨run.reverse ++ place.before, rest, place.captured⟩ := by
  constructor
  · intro hlast
    obtain ⟨count, hcount, rfl⟩ := List.mem_map.mp hlast
    exact ⟨place.rest.take count, place.rest.drop count, (mem_counts.mp hcount).2,
      (List.take_append_drop count place.rest).symm, rfl⟩
  · rintro ⟨run, rest, hrun, hrest, rfl⟩
    refine List.mem_map.mpr ⟨run.length, mem_counts.mpr ?_, ?_⟩
    · simpa [hrest] using hrun
    · simp [Place.pass, hrest]

theorem accepts_greedy : (greedy admits).Accepts (fun run => ∀ c ∈ run, admits c = true) := by
  intro place last
  rw [ends, List.map_reverse, List.mem_reverse, mem_map_pass_counts]

theorem accepts_reluctant :
    (reluctant admits).Accepts (fun run => ∀ c ∈ run, admits c = true) := by
  intro place last
  rw [ends, mem_map_pass_counts]

theorem Accepts.followed (hfirst : first.Accepts language) (hsecond : second.Accepts other) :
    (first.followed second).Accepts
      (fun run => ∃ front back, run = front ++ back ∧ language front ∧ other back) := by
  intro place last
  rw [mem_ends_followed]
  constructor
  · rintro ⟨middle, hmiddle, hlast⟩
    obtain ⟨front, text, hfront, hsplit, rfl⟩ := (hfirst _ _).mp hmiddle
    obtain ⟨back, rest, hback, htext, rfl⟩ := (hsecond _ _).mp hlast
    obtain rfl : text = back ++ rest := htext
    exact ⟨front ++ back, rest, ⟨front, back, rfl, hfront, hback⟩, by simp [hsplit], by simp⟩
  · rintro ⟨run, rest, ⟨front, back, rfl, hfront, hback⟩, hsplit, rfl⟩
    refine ⟨_, (hfirst _ _).mpr ⟨front, back ++ rest, hfront, by simp [hsplit], rfl⟩, ?_⟩
    exact (hsecond _ _).mpr ⟨back, rest, hback, rfl, by simp⟩

theorem Accepts.of_iff (haccepts : pattern.Accepts language)
    (hiff : ∀ run, language run ↔ other run) : pattern.Accepts other := by
  intro place last
  simp only [haccepts place last, hiff]

theorem exists_cons_iff_forall_mem {run : List Char} :
    (∃ front back, run = front ++ back ∧ (∃ c, front = [c] ∧ admits c = true) ∧
      ∀ c ∈ back, admits c = true) ↔ run ≠ [] ∧ ∀ c ∈ run, admits c = true := by
  cases run with
  | nil => simp
  | cons c run =>
    constructor
    · rintro ⟨front, back, hrun, ⟨d, rfl, hd⟩, hback⟩
      obtain ⟨rfl, rfl⟩ := List.cons.inj hrun
      exact ⟨List.cons_ne_nil _ _, List.forall_mem_cons.mpr ⟨hd, hback⟩⟩
    · rintro ⟨-, hrun⟩
      obtain ⟨hc, hback⟩ := List.forall_mem_cons.mp hrun
      exact ⟨[c], run, rfl, ⟨c, rfl, hc⟩, hback⟩

theorem accepts_greedySome :
    (greedySome admits).Accepts (fun run => run ≠ [] ∧ ∀ c ∈ run, admits c = true) :=
  (accepts_one.followed accepts_greedy).of_iff fun _ => exists_cons_iff_forall_mem

theorem accepts_reluctantSome :
    (reluctantSome admits).Accepts (fun run => run ≠ [] ∧ ∀ c ∈ run, admits c = true) :=
  (accepts_one.followed accepts_reluctant).of_iff fun _ => exists_cons_iff_forall_mem

theorem accepts_anyCase (word : List Char) :
    (anyCase word).Accepts (fun run => run.map Char.toUpper = word) := by
  induction word with
  | nil => exact accepts_empty.of_iff fun _ => List.map_eq_nil_iff.symm
  | cons k word ih =>
      refine (accepts_one.followed ih).of_iff fun run => ?_
      rw [List.map_eq_cons_iff]
      constructor
      · rintro ⟨front, back, rfl, ⟨c, rfl, hc⟩, hback⟩
        exact ⟨c, back, rfl, of_decide_eq_true hc, hback⟩
      · rintro ⟨c, back, rfl, hc, hback⟩
        exact ⟨[c], back, rfl, ⟨c, rfl, decide_eq_true hc⟩, hback⟩

/-- A group captures what its pattern takes. -/
theorem Accepts.mem_ends_group (haccepts : pattern.Accepts language) :
    last ∈ (group pattern).ends place ↔ ∃ run rest, language run ∧ place.rest = run ++ rest ∧
      last = ⟨run.reverse ++ place.before, rest, some run⟩ := by
  rw [ends, List.mem_map]
  constructor
  · rintro ⟨inner, hinner, rfl⟩
    obtain ⟨run, rest, hrun, hrest, rfl⟩ := (haccepts _ _).mp hinner
    exact ⟨run, rest, hrun, hrest, by simp [Place.capture, hrest]⟩
  · rintro ⟨run, rest, hrun, hrest, rfl⟩
    exact ⟨_, (haccepts _ _).mpr ⟨run, rest, hrun, hrest, rfl⟩, by simp [Place.capture, hrest]⟩

theorem Accepts.mem_ends {run : List Char} (haccepts : pattern.Accepts language)
    (before rest : List Char) (captured : Option (List Char)) (hrun : language run) :
    ⟨run.reverse ++ before, rest, captured⟩ ∈ pattern.ends ⟨before, run ++ rest, captured⟩ :=
  (haccepts _ _).mpr ⟨run, rest, hrun, rfl, rfl⟩

theorem Accepts.capture_mem_ends {run : List Char} (haccepts : pattern.Accepts language)
    (before rest : List Char) (captured : Option (List Char)) (hrun : language run) :
    ⟨run.reverse ++ before, rest, some run⟩ ∈
      (group pattern).ends ⟨before, run ++ rest, captured⟩ :=
  haccepts.mem_ends_group.mpr ⟨run, rest, hrun, rfl, rfl⟩

/-! ## The search -/

theorem search_of_mem_ends {before text : List Char}
    (hlast : last ∈ pattern.ends ⟨before, text, none⟩) :
    ∃ preferred ∈ pattern.ends ⟨before, text, none⟩,
      pattern.search before text = some preferred := by
  obtain ⟨preferred, others, hends⟩ := List.exists_cons_of_ne_nil (List.ne_nil_of_mem hlast)
  refine ⟨preferred, by simp [hends], ?_⟩
  cases text <;> simp [search, hends]

theorem search_cons_of_ends_eq_nil {before text : List Char} {c : Char}
    (hnone : pattern.ends ⟨before, c :: text, none⟩ = []) :
    pattern.search before (c :: text) = pattern.search (c :: before) text := by
  simp [search, hnone]

end Pattern

end OberonImports.Text
