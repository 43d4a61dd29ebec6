import OberonImports.Proofs.Yaml.Scalar
import OberonImports.Yaml.Token.Stream

/-!
# Fetching the tokens of an entry

An entry of a block mapping is a key, a colon and a quoted text. The key is fetched as a scalar that
may turn out to be a key, the colon makes it one, unless too much stands between, and opens the
mapping if none is open at the column of the key.
-/

namespace OberonImports.Yaml

variable {key text rest : List Char} {mark : Mark} {c : Char}

/-- A key as it is written: a word as it is, any other text between quotes. -/
def keyText (key : List Char) : List Char := if isWord key then key else quoted key

def keyStyle (key : List Char) : ScalarStyle := if isWord key then .plain else .singleQuoted

theorem mem_keyText (hc : c ∈ keyText key) : c ∈ key ∨ c = '\'' := by
  unfold keyText at hc
  split at hc
  next => exact .inl hc
  next => exact mem_quoted hc

theorem not_isBreak_of_mem_keyText (hkey : ∀ c ∈ key, isBreak c = false) :
    ∀ c ∈ keyText key, isBreak c = false := by
  intro c hc
  rcases mem_keyText hc with hmem | rfl
  · exact hkey c hmem
  · rfl

/-- Whether a key is known as such when its colon comes: it must be short. -/
def IsShort (key : List Char) : Prop := octets (keyText key) ≤ 1024

instance : DecidablePred IsShort := fun _ => inferInstanceAs (Decidable (_ ≤ _))

namespace Scanner

variable {scanner next : Scanner} {start : KeyStart} {column fuel : Nat}

/-! ### Going on -/

theorem run_succ (hdone : isDone scanner.release.1 = false)
    (hfetch : scanner.release.2.fetch? = some next) :
    run true (fuel + 1) scanner = scanner.release.1 ++ run true fuel next := by
  rw [run]
  simp [hdone, hfetch, hasLookahead]

theorem run_of_fetch?_eq_none (hfetch : scanner.release.2.fetch? = none) :
    run true (fuel + 1) scanner = scanner.release.1 := by
  rw [run]
  simp [hfetch]

theorem run_of_isDone (hdone : isDone scanner.release.1 = true) :
    run true (fuel + 1) scanner = scanner.release.1 := by
  rw [run]
  simp [hdone]

/-- If no key may have started, all tokens are released. -/
theorem release_of_none (hkeys : scanner.keys = [none]) : scanner.release =
    (scanner.queue,
      { scanner with queue := [], released := scanner.released + scanner.queue.length }) := by
  rw [release, firstWaiting?, hkeys]
  rfl

/-- If the next token may start a key, none is released. -/
theorem release_of_some (hkeys : scanner.keys = [some start])
    (hnumber : start.number = scanner.released) : scanner.release = ([], scanner) := by
  have hfirst : scanner.firstWaiting? = some scanner.released := by
    rw [firstWaiting?, hkeys, ← hnumber]
    rfl
  rw [release, hfirst]
  simp

theorem dropStale?_of_none (hkeys : scanner.keys = [none]) : scanner.dropStale? = some scanner := by
  rw [dropStale?, hkeys]
  rfl

/-- No block is right of a column at or right of the innermost one. -/
theorem closeBlocks_of_le (hle : scanner.level ≤ column) :
    scanner.closeBlocks column = scanner := by
  have hclosing : closing scanner.mark column scanner.level scanner.levels =
      ([], scanner.level, scanner.levels) := by
    cases scanner.levels with
    | nil => rfl
    | cons outer levels => rw [closing, if_neg (Nat.not_lt.mpr hle)]
  rw [closeBlocks, hclosing]
  simp

/-! ### Between tokens -/

/-- Whether a token can start with a character, wherever it stands. -/
def startsToken (c : Char) : Bool := !isBreak c && !isGap c && c ≠ '#' && c ≠ '\ufeff'

theorem startsToken_of_isNameChar (hc : isNameChar c = true) : startsToken c = true := by
  have hhash : c ≠ '#' := ne_of_isNameChar hc rfl
  have hmark : c ≠ '\ufeff' := ne_of_isNameChar hc rfl
  simp [startsToken, not_isBreak_of_isNameChar hc, not_isGap_of_isNameChar hc, hhash, hmark]

theorem skipBetween_of_startsToken {keyAllowed : Bool} (hc : startsToken c = true) :
    skipBetween false keyAllowed false mark (c :: text) = (⟨c :: text, mark⟩, keyAllowed) := by
  simp only [startsToken, Bool.and_eq_true, Bool.not_eq_true', decide_eq_true_eq, isGap,
    Bool.or_eq_false_iff, decide_eq_false_iff_not] at hc
  obtain ⟨⟨⟨hbreak, hspace, htab⟩, hhash⟩, hmark⟩ := hc
  rw [skipBetween]
  simp [hbreak, hspace, htab, hhash, hmark]

theorem skipBetween_blanks {keyAllowed : Bool} (hc : startsToken c = true) (width : Nat) :
    skipBetween false keyAllowed false mark (List.replicate width ' ' ++ c :: text) =
      (⟨c :: text, mark.behind (List.replicate width ' ')⟩, keyAllowed) := by
  induction width generalizing mark with
  | zero => exact skipBetween_of_startsToken hc
  | succ width ih =>
      rw [List.replicate_succ, List.cons_append, skipBetween]
      simp only [isBreak]
      simpa [Mark.behind] using @ih (mark.next ' ')

/-- A scanner at the first character of a token stays there. -/
theorem toNextToken_of_startsToken (htext : scanner.cursor.text = c :: text)
    (hflow : scanner.flowDepth = 0) (hc : startsToken c = true) :
    scanner.toNextToken = scanner := by
  obtain ⟨⟨source, place⟩, depth, level, levels, allowed, keys, queue, released⟩ := scanner
  obtain rfl : source = c :: text := htext
  obtain rfl : depth = 0 := hflow
  simp [toNextToken, inFlow, mark, skipBetween_of_startsToken hc]

/-! ### Single tokens -/

/-- Where no token of a document can start, a letter starts a plain scalar. -/
theorem fetchToken?_of_isAlpha (htext : scanner.cursor.text = c :: text) (hc : c.isAlpha = true) :
    scanner.fetchToken? = scanner.fetchPlain? := by
  have hne : ∀ {d}, d.isAlpha = false → c ≠ d := by
    rintro d hd rfl
    rw [hc] at hd
    cases hd
  have hsign : isIndicator c = false := by
    simp only [isIndicator, List.contains_eq_mem, decide_eq_false_iff_not, List.mem_cons,
      List.not_mem_nil, or_false, not_or]
    and_intros <;> exact hne rfl
  have hplain : startsPlain scanner.inFlow (c :: text) = true := by
    have hname : isNameChar c = true := by simp [isNameChar, Char.isAlphanum, hc]
    simp [startsPlain, hsign, not_isGap_of_isNameChar hname, not_isBreak_of_isNameChar hname]
  rw [fetchToken?, htext]
  simp [startsDocument, endsDocument, startsSign, hplain, (hne (d := '-') rfl).symm,
    (hne (d := '.') rfl).symm, hne (d := '%') rfl, hne (d := '-') rfl, hne (d := '[') rfl,
    hne (d := '\x7b') rfl, hne (d := ']') rfl, hne (d := '\x7d') rfl, hne (d := ',') rfl,
    hne (d := '?') rfl, hne (d := ':') rfl, hne (d := '*') rfl, hne (d := '&') rfl,
    hne (d := '!') rfl, hne (d := '|') rfl, hne (d := '>') rfl, hne (d := '\'') rfl,
    hne (d := '"') rfl]

theorem fetchToken?_quote (htext : scanner.cursor.text = '\'' :: text) : scanner.fetchToken? =
    scanner.fetchQuoted? .singleQuoted fun mark => singleQuoted? mark .none [] := by
  rw [fetchToken?, htext]
  simp [startsDocument, endsDocument, startsSign]

theorem fetchToken?_colon (htext : scanner.cursor.text = ':' :: text) (hgap : atGap text = true) :
    scanner.fetchToken? = scanner.fetchValue? := by
  rw [fetchToken?, htext]
  simp [startsDocument, endsDocument, startsSign, hgap]

/-! ### Keys and colons -/

/-- The scanner behind a key that starts at a mark, with the place of the key noted. -/
def behindKey (scanner : Scanner) (mark : Mark) (key rest : List Char) : Scanner :=
  { scanner with
    cursor := ⟨':' :: rest, mark.behind (keyText key)⟩
    keyAllowed := false
    keys := [some ⟨scanner.nextNumber, mark, scanner.level = mark.column + 1⟩]
    queue := scanner.queue ++
      [⟨.scalar (String.ofList key) (keyStyle key), mark, mark.behind (keyText key)⟩] }

theorem exists_keyText_cons (key : List Char) :
    ∃ c text, keyText key = c :: text ∧ startsToken c = true := by
  unfold keyText
  split
  next hword =>
    cases key with
    | nil => cases hword
    | cons c key =>
        have hname := isNameChar_of_isWord hword c List.mem_cons_self
        exact ⟨c, key, rfl, startsToken_of_isNameChar hname⟩
  next => exact ⟨'\'', _, rfl, rfl⟩

theorem noteKey?_of_none (hflow : scanner.flowDepth = 0) (hallowed : scanner.keyAllowed = true)
    (hkeys : scanner.keys = [none]) : scanner.noteKey? = some { scanner with
      keys := [some ⟨scanner.nextNumber, scanner.mark,
        scanner.level = scanner.mark.column + 1⟩] } := by
  simp [noteKey?, hallowed, dropKey?, key?, hkeys, setKey, inFlow, hflow]

/-- Where a key may start, it is fetched and its place is noted. -/
theorem fetchToken?_key (htext : scanner.cursor.text = keyText key ++ ':' :: rest)
    (hflow : scanner.flowDepth = 0) (hallowed : scanner.keyAllowed = true)
    (hkeys : scanner.keys = [none]) (hkey : ∀ c ∈ key, isBreak c = false)
    (hrest : atGap rest = true) :
    scanner.fetchToken? = some (scanner.behindKey scanner.mark key rest) := by
  have hnote := noteKey?_of_none hflow hallowed hkeys
  obtain ⟨⟨source, mark⟩, depth, level, levels, allowed, keys, queue, released⟩ := scanner
  obtain rfl : source = keyText key ++ ':' :: rest := htext
  obtain rfl : depth = 0 := hflow
  cases hword : isWord key with
  | true =>
      have hwritten : keyText key = key := if_pos hword
      have hstyle : keyStyle key = .plain := if_pos hword
      obtain ⟨c, text, rfl, hc⟩ : ∃ c text, key = c :: text ∧ c.isAlpha = true := by
        cases key with
        | nil => cases hword
        | cons c text => exact ⟨c, text, rfl, (Bool.and_eq_true _ _ ▸ hword).1⟩
      have hread : plainScalar? ⟨false, level⟩ mark .none [] (c :: text ++ ':' :: rest) =
          some ⟨c :: text, ⟨':' :: rest, mark.behind (c :: text)⟩, false⟩ :=
        plainScalar?_word _ rfl (isNameChar_of_isWord hword) hrest
      rw [hwritten] at hnote ⊢
      rw [fetchToken?_of_isAlpha rfl hc, fetchPlain?, hnote, behindKey, hwritten, hstyle]
      simp only [Option.bind_eq_bind, Option.bind_some]
      erw [hread]
      rfl
  | false =>
      have hwritten : keyText key = quoted key := if_neg (ne_true_of_eq_false hword)
      have hstyle : keyStyle key = .singleQuoted := if_neg (ne_true_of_eq_false hword)
      have hread : singleQuoted? (mark.next '\'') .none [] (doubled key ++ '\'' :: ':' :: rest) =
          some (key, ⟨':' :: rest, (mark.next '\'').behind (doubled key ++ ['\''])⟩) :=
        singleQuoted?_doubled hkey (Nat.succ_ne_zero _) rfl (by simp)
      have hquoted : quoted key ++ ':' :: rest = '\'' :: (doubled key ++ '\'' :: ':' :: rest) := by
        simp [quoted]
      rw [hwritten, hquoted] at hnote ⊢
      rw [fetchToken?_quote rfl, fetchQuoted?, hnote, behindKey, hwritten, hstyle]
      simp only [Option.bind_eq_bind, Option.bind_some]
      erw [hread]
      rfl

/-- The text of an entry is fetched as a scalar. -/
theorem fetchToken?_text (htext : scanner.cursor.text = quoted text ++ rest)
    (hallowed : scanner.keyAllowed = false) (hline : ∀ c ∈ text, isBreak c = false)
    (hrest : rest.head? ≠ some '\'') : scanner.fetchToken? =
      some { scanner with
        cursor := ⟨rest, scanner.mark.behind (quoted text)⟩
        queue := scanner.queue ++ [⟨.scalar (String.ofList text) .singleQuoted, scanner.mark,
          scanner.mark.behind (quoted text)⟩] } := by
  obtain ⟨⟨source, mark⟩, depth, level, levels, allowed, keys, queue, released⟩ := scanner
  obtain rfl : source = quoted text ++ rest := htext
  obtain rfl : allowed = false := hallowed
  have hread : singleQuoted? (mark.next '\'') .none [] (doubled text ++ '\'' :: rest) =
      some (text, ⟨rest, (mark.next '\'').behind (doubled text ++ ['\''])⟩) :=
    singleQuoted?_doubled hline (Nat.succ_ne_zero _) rfl hrest
  have hquoted : quoted text ++ rest = '\'' :: (doubled text ++ '\'' :: rest) := by simp [quoted]
  rw [hquoted, fetchToken?_quote rfl, fetchQuoted?, noteKey?, if_neg Bool.false_ne_true]
  simp only [Option.bind_eq_bind, Option.bind_some]
  erw [hread]
  rfl

/-- The scanner behind a colon that ends a key: the key and, if it is right of the innermost block, a
block of its own have got their tokens. -/
def behindColon (scanner : Scanner) (start : KeyStart) (rest : List Char) : Scanner :=
  let inner : Bool := start.mark.column < scanner.level
  { scanner with
    cursor := ⟨rest, scanner.mark.next ':'⟩
    keyAllowed := false
    keys := [none]
    level := if inner then scanner.level else start.mark.column + 1
    levels := if inner then scanner.levels else scanner.level :: scanner.levels
    queue := (if inner then [] else [⟨.blockMappingStart, start.mark, start.mark⟩]) ++
      ⟨.key, start.mark, start.mark⟩ :: scanner.queue ++
        [⟨.value, scanner.mark, scanner.mark.next ':'⟩] }

theorem fetchToken?_value (htext : scanner.cursor.text = ':' :: rest) (hrest : atGap rest = true)
    (hflow : scanner.flowDepth = 0) (hkeys : scanner.keys = [some start])
    (hnumber : start.number = scanner.released) :
    scanner.fetchToken? = some (scanner.behindColon start rest) := by
  rw [fetchToken?_colon htext hrest, fetchValue?]
  obtain ⟨⟨source, place⟩, depth, level, levels, allowed, keys, queue, released⟩ := scanner
  obtain rfl : source = ':' :: rest := htext
  obtain rfl : depth = 0 := hflow
  obtain rfl : keys = [some start] := hkeys
  obtain rfl : start.number = released := hnumber
  by_cases hinner : start.mark.column < level <;>
    simp [key?, insertAt, openBlock, inFlow, hinner, setKey, emitSign, emit, behindColon, mark,
      Cursor.skip, Cursor.next]

/-! ### Fetches -/

theorem fetch?_of_fetchToken? {ready : Scanner} (hnext : scanner.toNextToken = ready)
    (hfresh : ready.dropStale? = some ready) (hlevel : ready.level ≤ ready.mark.column + 1)
    (hfetch : ready.fetchToken? = some next) : scanner.fetch? = next.dropStale? := by
  rw [fetch?, hnext, hfresh]
  simp only [Option.bind_eq_bind, Option.bind_some, closeBlocks_of_le hlevel, hfetch]

/-- A key is stale when its colon comes if it is too long. -/
theorem isStale_behindKey (hkey : ∀ c ∈ key, isBreak c = false) (start : KeyStart)
    (hstart : start.mark = mark) :
    (scanner.behindKey mark key rest).isStale start = !decide (IsShort key) := by
  have hmark : (scanner.behindKey mark key rest).mark = ⟨mark.index + octets (keyText key),
      mark.line, mark.column + (keyText key).length⟩ :=
    Mark.behind_of_not_isBreak (not_isBreak_of_mem_keyText hkey)
  rw [isStale, hmark, hstart]
  simp only [Nat.lt_irrefl, decide_false, Bool.false_or]
  rw [← decide_not, decide_eq_decide]
  unfold IsShort
  omega

/-- A key that is short is kept in mind. One that is too long is not, which is wrong where a key is
required. -/
theorem dropStale?_behindKey (hkey : ∀ c ∈ key, isBreak c = false) :
    (scanner.behindKey mark key rest).dropStale? =
      if IsShort key then some (scanner.behindKey mark key rest)
      else if scanner.level = mark.column + 1 then none
      else some { scanner.behindKey mark key rest with keys := [none] } := by
  have hstale : (scanner.behindKey mark key rest).isStale
      ⟨scanner.nextNumber, mark, scanner.level = mark.column + 1⟩ = !decide (IsShort key) :=
    isStale_behindKey hkey _ rfl
  have hkeys : (scanner.behindKey mark key rest).keys =
    [some ⟨scanner.nextNumber, mark, scanner.level = mark.column + 1⟩] := rfl
  rw [dropStale?, hkeys]
  simp only [List.all_cons, List.all_nil, Option.all_some, List.any_cons, List.any_nil,
    Option.any_some, hstale, List.map_cons, List.map_nil, Option.filter_some]
  by_cases hshort : IsShort key <;> by_cases hrequired : scanner.level = mark.column + 1 <;>
    simp [hshort, hrequired]

end Scanner

end OberonImports.Yaml
