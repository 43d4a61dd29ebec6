import OberonImports.Proofs.Yaml.Fetch
import OberonImports.Text.Lines

/-!
# The tokens of a block mapping

A nested mapping is written as a line for its key and, indented, a line for each entry of the mapping
below. Its tokens are those of the key, those of the entries one after the other, and the ends of the
two mappings. A key that is too long for a key ends the tokens.
-/

namespace OberonImports.Yaml

variable {width level : Nat} {levels : List Nat} {key rest : List Char}
  {entry : String × String} {entries : List (String × String)}

/-- The line of an entry, indented by so many blanks. -/
def entryLine (width : Nat) (entry : String × String) : String :=
  String.ofList (List.replicate width ' ' ++
    (keyText entry.1.toList ++ ':' :: ' ' :: quoted entry.2.toList))

/-- The text of a mapping whose only key is a name, with a mapping as its value. -/
def nestedMapping (width : Nat) (name : String) (entries : List (String × String)) : String :=
  Text.unlines ((name ++ ":") :: entries.map (entryLine width))

/-- The lines of entries, each ended by a line feed. -/
def entryLines (width : Nat) (entries : List (String × String)) : List Char :=
  entries.flatMap fun entry => (entryLine width entry).toList ++ ['\n']

theorem toList_nestedMapping (width : Nat) (name : String) (entries : List (String × String)) :
    (nestedMapping width name entries).toList =
      name.toList ++ ':' :: '\n' :: entryLines width entries := by
  simp [nestedMapping, Text.unlines, entryLines, List.flatMap_def, Function.comp_def]

/-- The texts of an entry are lines. -/
def IsLineEntry (entry : String × String) : Prop :=
  IsLine entry.1.toList ∧ IsLine entry.2.toList

instance : DecidablePred IsLineEntry := fun _ => inferInstanceAs (Decidable (_ ∧ _))

/-! ### Kinds of tokens -/

/-- The tokens of an entry. -/
def entryKinds (entry : String × String) : List TokenKind :=
  [.key, .scalar entry.1 (keyStyle entry.1.toList), .value, .scalar entry.2 .singleQuoted]

/-- The entries before the first one whose key is too long. -/
def knownEntries (entries : List (String × String)) : List (String × String) :=
  entries.takeWhile fun entry => IsShort entry.1.toList

/-- The tokens of the entries of an open mapping, and the ends of the mapping and of that around
it, unless a key is too long. -/
def restKinds (entries : List (String × String)) : List TokenKind :=
  (knownEntries entries).flatMap entryKinds ++
    if knownEntries entries = entries then [.blockEnd, .blockEnd, .streamEnd] else []

theorem entryLines_cons (width : Nat) (entry : String × String) (entries : List (String × String)) :
    entryLines width (entry :: entries) =
      (entryLine width entry).toList ++ '\n' :: entryLines width entries := by
  rw [entryLines, List.flatMap_cons, List.append_assoc]
  rfl

theorem knownEntries_cons_of_short (hshort : IsShort entry.1.toList) :
    knownEntries (entry :: entries) = entry :: knownEntries entries := by
  rw [knownEntries, List.takeWhile_cons_of_pos (by simpa using hshort), knownEntries]

theorem knownEntries_cons_of_not_short (hlong : ¬ IsShort entry.1.toList) :
    knownEntries (entry :: entries) = [] := by
  rw [knownEntries, List.takeWhile_cons_of_neg (by simpa using hlong)]

/-- The tokens behind the key of a nested mapping. -/
def nestedKinds : List (String × String) → List TokenKind
  | [] => [.blockEnd, .streamEnd]
  | entry :: entries =>
      if IsShort entry.1.toList then .blockMappingStart :: restKinds (entry :: entries)
      else [.scalar entry.1 (keyStyle entry.1.toList)]

namespace Scanner

variable {scanner ready : Scanner} {fuel : Nat}

/-- A scanner at the end of a line of a block mapping, before the given text. -/
structure AtLineEnd (scanner : Scanner) (rest : List Char) (level : Nat) (levels : List Nat) :
    Prop where
  text : scanner.cursor.text = '\n' :: rest
  flow : scanner.flowDepth = 0
  level_eq : scanner.level = level
  levels_eq : scanner.levels = levels
  keys : scanner.keys = [none]
  running : isDone scanner.queue = false

/-- A scanner at a key that may be one. -/
structure AtKey (scanner : Scanner) (key rest : List Char) : Prop where
  text : scanner.cursor.text = keyText key ++ ':' :: rest
  flow : scanner.flowDepth = 0
  allowed : scanner.keyAllowed = true
  keys : scanner.keys = [none]
  queue : scanner.queue = []
  level_le : scanner.level ≤ scanner.mark.column + 1

/-- What becomes of a scanner at a key when the key and its colon have been fetched. -/
def behindKeyAndColon (scanner : Scanner) (key rest : List Char) : Scanner :=
  (scanner.behindKey scanner.mark key rest).behindColon
    ⟨scanner.released, scanner.mark, scanner.level = scanner.mark.column + 1⟩ rest

theorem fetch?_key (hnext : scanner.toNextToken = ready) (hready : ready.AtKey key rest)
    (hkey : ∀ c ∈ key, isBreak c = false) (hrest : atGap rest = true) :
    scanner.fetch? = (ready.behindKey ready.mark key rest).dropStale? :=
  fetch?_of_fetchToken? hnext (dropStale?_of_none hready.keys) hready.level_le
    (fetchToken?_key hready.text hready.flow hready.allowed hready.keys hkey hrest)

theorem column_behindKey (ready : Scanner) (rest : List Char)
    (hkey : ∀ c ∈ key, isBreak c = false) :
    (ready.behindKey ready.mark key rest).mark.column =
      ready.mark.column + (keyText key).length :=
  congrArg Mark.column (Mark.behind_of_not_isBreak (not_isBreak_of_mem_keyText hkey))

/-- A short key and its colon are fetched one after the other. No token is released between them. -/
theorem run_key (hdone : isDone scanner.release.1 = false)
    (hnext : scanner.release.2.toNextToken = ready) (hready : ready.AtKey key rest)
    (hkey : ∀ c ∈ key, isBreak c = false) (hshort : IsShort key) (hrest : atGap rest = true) :
    run true (fuel + 2) scanner =
      scanner.release.1 ++ run true fuel (ready.behindKeyAndColon key rest) := by
  have hnumber : ready.nextNumber = ready.released := by simp [nextNumber, hready.queue]
  have hfresh : (ready.behindKey ready.mark key rest).dropStale? =
      some (ready.behindKey ready.mark key rest) := by
    rw [dropStale?_behindKey hkey, if_pos hshort]
  have hfirst : scanner.release.2.fetch? = some (ready.behindKey ready.mark key rest) := by
    rw [fetch?_key hnext hready hkey hrest, hfresh]
  -- The scalar waits: a colon behind it would put a key before it.
  have hrelease : (ready.behindKey ready.mark key rest).release =
      ([], ready.behindKey ready.mark key rest) := release_of_some rfl hnumber
  have hlevel : (ready.behindKey ready.mark key rest).level ≤
      (ready.behindKey ready.mark key rest).mark.column + 1 := by
    have hle : ready.level ≤ ready.mark.column + 1 := hready.level_le
    rw [column_behindKey ready rest hkey]
    exact Nat.le_trans hle (by omega)
  have hcolon : (ready.behindKey ready.mark key rest).release.2.fetch? =
      some (ready.behindKeyAndColon key rest) := by
    have hhere : (ready.behindKey ready.mark key rest).toNextToken =
        ready.behindKey ready.mark key rest := toNextToken_of_startsToken rfl hready.flow rfl
    have hvalue : (ready.behindKey ready.mark key rest).fetchToken? = _ :=
      fetchToken?_value rfl hrest hready.flow rfl hnumber
    rw [hrelease, fetch?_of_fetchToken? hhere hfresh hlevel hvalue, dropStale?_of_none rfl,
      behindKeyAndColon, hnumber]
  rw [run_succ hdone hfirst, run_succ (by rw [hrelease]; rfl) hcolon, hrelease]
  rfl

/-- Without a key before it, and where no key may start, a colon is out of place. -/
theorem fetch?_stray_colon (htext : scanner.cursor.text = ':' :: rest) (hrest : atGap rest = true)
    (hflow : scanner.flowDepth = 0) (hallowed : scanner.keyAllowed = false)
    (hkeys : scanner.keys = [none]) (hlevel : scanner.level ≤ scanner.mark.column + 1) :
    scanner.fetch? = none := by
  have hcolon : scanner.fetchToken? = none := by
    rw [fetchToken?_colon htext hrest, fetchValue?]
    simp [key?, hkeys, openForSign?, inFlow, hflow, hallowed]
  rw [fetch?, toNextToken_of_startsToken htext hflow rfl, dropStale?_of_none hkeys]
  simp only [Option.bind_eq_bind, Option.bind_some, closeBlocks_of_le hlevel, hcolon,
    Option.bind_none]

/-- A key that is too long is not known when its colon comes. Where a key is required, that is wrong
at once. -/
theorem exists_run_long (hdone : isDone scanner.release.1 = false)
    (hnext : scanner.release.2.toNextToken = ready) (hready : ready.AtKey key rest)
    (hkey : ∀ c ∈ key, isBreak c = false) (hlong : ¬ IsShort key) (hrest : atGap rest = true) :
    ∃ tokens, run true (fuel + 2) scanner = scanner.release.1 ++ tokens ∧
      tokens.map (·.kind) = if ready.level = ready.mark.column + 1 then []
        else [.scalar (String.ofList key) (keyStyle key)] := by
  have hfetch := fetch?_key hnext hready hkey hrest
  rw [dropStale?_behindKey hkey, if_neg hlong] at hfetch
  split
  next hrequired =>
    rw [if_pos hrequired] at hfetch
    exact ⟨[], by rw [run_of_fetch?_eq_none hfetch, List.append_nil], rfl⟩
  next hrequired =>
    rw [if_neg hrequired] at hfetch
    generalize hforgotten : { ready.behindKey ready.mark key rest with keys := [none] } = forgotten
      at hfetch
    have hkeys : forgotten.keys = [none] := by rw [← hforgotten]
    have hlevel : forgotten.level ≤ forgotten.mark.column + 1 := by
      have hle : ready.level ≤ ready.mark.column + 1 := hready.level_le
      have hcolumn := column_behindKey ready rest hkey
      rw [← hforgotten]
      exact Nat.le_trans hle (Nat.succ_le_succ (hcolumn ▸ Nat.le_add_right _ _))
    have hstray : forgotten.release.2.fetch? = none := by
      rw [release_of_none hkeys]
      subst hforgotten
      exact fetch?_stray_colon rfl hrest hready.flow rfl rfl hlevel
    rw [run_succ hdone hfetch, run_of_fetch?_eq_none hstray, release_of_none hkeys]
    refine ⟨_, rfl, ?_⟩
    rw [← hforgotten]
    simp [behindKey, hready.queue]

/-- The text of an entry is fetched up to the end of the line. -/
theorem run_text {text : List Char} (htext : scanner.cursor.text = ' ' :: quoted text ++ '\n' :: rest)
    (hflow : scanner.flowDepth = 0) (hallowed : scanner.keyAllowed = false)
    (hkeys : scanner.keys = [none]) (hlevel : scanner.level ≤ scanner.mark.column + 1)
    (hrunning : isDone scanner.queue = false) (hline : ∀ c ∈ text, isBreak c = false) :
    ∃ next, (∀ fuel, run true (fuel + 1) scanner = scanner.queue ++ run true fuel next) ∧
      next.AtLineEnd rest scanner.level scanner.levels ∧
      next.queue.map (·.kind) = [.scalar (String.ofList text) .singleQuoted] := by
  obtain ⟨⟨source, place⟩, depth, level, levels, allowed, keys, queue, released⟩ := scanner
  obtain rfl : source = ' ' :: quoted text ++ '\n' :: rest := htext
  obtain rfl : depth = 0 := hflow
  obtain rfl : allowed = false := hallowed
  obtain rfl : keys = [none] := hkeys
  have hskip : skipBetween false false false place (' ' :: quoted text ++ '\n' :: rest) =
      (⟨quoted text ++ '\n' :: rest, place.next ' '⟩, false) :=
    skipBetween_blanks rfl 1
  let ready : Scanner := ⟨⟨quoted text ++ '\n' :: rest, place.next ' '⟩, 0, level, levels, false,
    [none], [], released + queue.length⟩
  have hnext : (⟨⟨' ' :: quoted text ++ '\n' :: rest, place⟩, 0, level, levels, false, [none], [],
      released + queue.length⟩ : Scanner).toNextToken = ready := by
    simp only [toNextToken, inFlow, mark]
    erw [hskip]
  have hle : ready.level ≤ ready.mark.column + 1 := Nat.le_trans hlevel (Nat.le_succ _)
  have hfetch := fetch?_of_fetchToken? hnext (dropStale?_of_none rfl) hle
    (fetchToken?_text rfl rfl hline (by simp))
  rw [dropStale?_of_none rfl] at hfetch
  let token : Token := ⟨.scalar (String.ofList text) .singleQuoted, place.next ' ',
    (place.next ' ').behind (quoted text)⟩
  refine ⟨⟨⟨'\n' :: rest, token.stop⟩, 0, level, levels, false, [none], [token],
    released + queue.length⟩, fun fuel => ?_, ⟨rfl, rfl, rfl, rfl, rfl, rfl⟩, rfl⟩
  exact run_succ hrunning hfetch

/-! ### Entries -/

theorem isDone_eq (tokens : List Token) :
    isDone tokens = decide (.streamEnd ∈ tokens.map (·.kind)) := by
  rw [Bool.eq_iff_iff, isDone, List.any_eq_true, decide_eq_true_eq, List.mem_map]
  simp only [decide_eq_true_eq]

/-- At the end of a line, the next token is the key of the next line. -/
theorem AtLineEnd.exists_atKey
    (hend : scanner.AtLineEnd ((entryLine width entry).toList ++ '\n' :: rest) level levels)
    (hlevel : level ≤ width + 1) :
    ∃ ready, scanner.release.2.toNextToken = ready ∧
      ready.AtKey entry.1.toList (' ' :: quoted entry.2.toList ++ '\n' :: rest) ∧
      ready.mark.column = width ∧ ready.level = level ∧ ready.levels = levels := by
  obtain ⟨htext, hflow, hlevel_eq, hlevels_eq, hkeys, -⟩ := hend
  obtain ⟨⟨source, place⟩, depth, _, _, allowed, keys, queue, released⟩ := scanner
  obtain rfl : source = _ := htext
  obtain rfl : depth = 0 := hflow
  obtain rfl : level = _ := hlevel_eq.symm
  obtain rfl : levels = _ := hlevels_eq.symm
  obtain rfl : keys = [none] := hkeys
  obtain ⟨c, text, hkey, hc⟩ := exists_keyText_cons entry.1.toList
  have hskip : skipBetween false allowed false place
      ('\n' :: ((entryLine width entry).toList ++ '\n' :: rest)) =
        (⟨keyText entry.1.toList ++ ':' :: ' ' :: quoted entry.2.toList ++ '\n' :: rest,
          (place.next '\n').behind (List.replicate width ' ')⟩, true) := by
    have hblanks : skipBetween false true false (place.next '\n') (List.replicate width ' ' ++
        c :: (text ++ ':' :: ' ' :: quoted entry.2.toList ++ '\n' :: rest)) = _ :=
      skipBetween_blanks hc width
    rw [skipBetween, entryLine, String.toList_ofList]
    simpa [isBreak, hkey] using hblanks
  have hcolumn : ((place.next '\n').behind (List.replicate width ' ')).column = width := by
    rw [Mark.behind_of_not_isBreak fun c hc => (List.eq_of_mem_replicate hc) ▸ rfl]
    simp [Mark.next, isBreak]
  refine ⟨⟨⟨keyText entry.1.toList ++ ':' :: ' ' :: quoted entry.2.toList ++ '\n' :: rest,
    (place.next '\n').behind (List.replicate width ' ')⟩, 0, _, _, true, [none], [],
    released + queue.length⟩, ?_, ⟨by simp, rfl, rfl, rfl, rfl, ?_⟩, hcolumn, rfl, rfl⟩
  · rw [release_of_none rfl, toNextToken]
    simp only [inFlow, mark]
    erw [hskip]
  · exact hcolumn.symm ▸ hlevel

/-- Behind an entry with a short key, its tokens have been fetched, of which the last one waits. If
no block is open at the column of the entry, one has been opened. -/
theorem exists_run_entry
    (hend : scanner.AtLineEnd ((entryLine width entry).toList ++ '\n' :: rest) level levels)
    (hlevel : level ≤ width + 1) (hline : IsLineEntry entry) (hshort : IsShort entry.1.toList) :
    ∃ tokens next, (∀ fuel, run true (fuel + 3) scanner =
        scanner.queue ++ (tokens ++ run true fuel next)) ∧
      tokens.map (·.kind) ++ next.queue.map (·.kind) =
        (if width < level then [] else [.blockMappingStart]) ++ entryKinds entry ∧
      next.AtLineEnd rest (if width < level then level else width + 1)
        (if width < level then levels else level :: levels) := by
  obtain ⟨ready, hnext, hready, hcolumn, rfl, rfl⟩ := hend.exists_atKey hlevel
  have hrelease := congrArg Prod.fst (release_of_none hend.keys)
  have hkey := hline.1.not_isBreak
  have hcolon := column_behindKey ready (' ' :: quoted entry.2.toList ++ '\n' :: rest) hkey
  have hdone : isDone scanner.release.1 = false := by rw [hrelease]; exact hend.running
  have hfetched : ∀ fuel, run true (fuel + 2) scanner = scanner.queue ++ run true fuel
      (ready.behindKeyAndColon entry.1.toList (' ' :: quoted entry.2.toList ++ '\n' :: rest)) := by
    intro fuel
    rw [run_key hdone hnext hready hkey hshort rfl, hrelease]
  -- From here on only a few facts about the scanner behind the colon count.
  generalize hthere : ready.behindKeyAndColon entry.1.toList
    (' ' :: quoted entry.2.toList ++ '\n' :: rest) = there at hfetched
  have hkinds : there.queue.map (·.kind) = (if width < ready.level then [] else [.blockMappingStart])
      ++ [.key, .scalar entry.1 (keyStyle entry.1.toList), .value] := by
    rw [← hthere, ← hcolumn]
    by_cases hinner : ready.mark.column < ready.level <;>
      simp [behindKeyAndColon, behindKey, behindColon, hready.queue, hinner]
  have hopen : there.level = (if width < ready.level then ready.level else width + 1) ∧
      there.levels = if width < ready.level then ready.levels else ready.level :: ready.levels := by
    rw [← hthere, ← hcolumn]
    by_cases hinner : ready.mark.column < ready.level <;>
      simp [behindKeyAndColon, behindKey, behindColon, hinner]
  have hlevel' : there.level ≤ there.mark.column + 1 := by
    have hnext : there.mark.column = ready.mark.column + (keyText entry.1.toList).length + 1 := by
      rw [← hthere, ← hcolon]
      rfl
    rw [hopen.1]
    split <;> omega
  have hrunning : isDone there.queue = false := by
    rw [isDone_eq, hkinds]
    split <;> simp
  obtain ⟨next, hrun, hnext, hlast⟩ := run_text (by rw [← hthere]; rfl)
    (by rw [← hthere]; exact hready.flow) (by rw [← hthere]; rfl) (by rw [← hthere]; rfl) hlevel'
    hrunning hline.2.not_isBreak
  refine ⟨there.queue, next, fun fuel => ?_, ?_, hopen.1 ▸ hopen.2 ▸ hnext⟩
  · rw [hfetched, hrun]
  · rw [hkinds, hlast, List.append_assoc, String.ofList_toList]
    rfl

/-- An entry whose key is too long ends the tokens. -/
theorem map_kind_run_long_entry
    (hend : scanner.AtLineEnd ((entryLine width entry).toList ++ '\n' :: rest) level levels)
    (hlevel : level ≤ width + 1) (hline : IsLineEntry entry) (hlong : ¬ IsShort entry.1.toList) :
    (run true (fuel + 2) scanner).map (·.kind) = scanner.queue.map (·.kind) ++
      if level = width + 1 then [] else [.scalar entry.1 (keyStyle entry.1.toList)] := by
  obtain ⟨ready, hnext, hready, rfl, rfl, -⟩ := hend.exists_atKey hlevel
  have hrelease := congrArg Prod.fst (release_of_none hend.keys)
  have hdone : isDone scanner.release.1 = false := by rw [hrelease]; exact hend.running
  obtain ⟨tokens, hrun, htokens⟩ :=
    exists_run_long hdone hnext hready hline.1.not_isBreak hlong rfl
  rw [hrun, hrelease, List.map_append, htokens, String.ofList_toList]

/-- At the end of the text, all blocks are closed. -/
theorem exists_run_end (hend : scanner.AtLineEnd [] level levels)
    (hlevels : level = 1 ∧ levels = [0] ∨ 1 < level ∧ levels = [1, 0]) :
    ∃ tokens, (∀ fuel, run true (fuel + 2) scanner = scanner.queue ++ tokens) ∧
      tokens.map (·.kind) = List.replicate levels.length .blockEnd ++ [.streamEnd] := by
  obtain ⟨htext, hflow, hlevel_eq, hlevels_eq, hkeys, hrunning⟩ := hend
  obtain ⟨⟨source, place⟩, depth, _, _, allowed, keys, queue, released⟩ := scanner
  obtain rfl : source = _ := htext
  obtain rfl : depth = 0 := hflow
  obtain rfl : level = _ := hlevel_eq.symm
  obtain rfl : levels = _ := hlevels_eq.symm
  obtain rfl : keys = [none] := hkeys
  let below : Mark := place.next '\n'
  let tokens : List Token :=
    List.replicate levels.length ⟨.blockEnd, below, below⟩ ++ [⟨.streamEnd, below, below⟩]
  let finished : Scanner :=
    ⟨⟨[], below⟩, 0, 0, [], false, [none], tokens, released + queue.length⟩
  have hfetch : (⟨⟨['\n'], place⟩, 0, level, levels, allowed, [none], [], released + queue.length⟩ :
      Scanner).fetch? = some finished := by
    rcases hlevels with ⟨rfl, rfl⟩ | ⟨hlevel, rfl⟩
    · simp [fetch?, toNextToken, skipBetween, isBreak, dropStale?, closeBlocks, closing, inFlow,
        fetchToken?, fetchEnd?, dropKey?, key?, setKey, emitSign, emit, Cursor.skip, mark, below,
        Mark.next, finished, tokens]
    · simp [fetch?, toNextToken, skipBetween, isBreak, dropStale?, closeBlocks, closing, inFlow,
        fetchToken?, fetchEnd?, dropKey?, key?, setKey, emitSign, emit, Cursor.skip, mark, below,
        Mark.next, finished, tokens, hlevel]
  refine ⟨tokens, fun fuel => ?_, by simp [tokens]⟩
  have hfirst : run true (fuel + 2) (⟨⟨['\n'], place⟩, 0, level, levels, allowed, [none], queue,
      released⟩ : Scanner) = queue ++ run true (fuel + 1) finished := run_succ hrunning hfetch
  have hdone : isDone finished.release.1 = true := by
    rw [release_of_none rfl, isDone_eq]
    simp [finished, tokens]
  rw [hfirst, run_of_isDone hdone, release_of_none rfl]

/-- By induction on the entries: each leaves the scanner at the end of a line. -/
theorem map_kind_run_entries (hwidth : 0 < width)
    (hend : scanner.AtLineEnd (entryLines width entries) (width + 1) [1, 0])
    (hlines : ∀ entry ∈ entries, IsLineEntry entry) (hfuel : 3 * entries.length + 2 ≤ fuel) :
    (run true fuel scanner).map (·.kind) = scanner.queue.map (·.kind) ++ restKinds entries := by
  induction entries generalizing scanner fuel with
  | nil =>
      obtain ⟨fuel, rfl⟩ : ∃ rest, fuel = rest + 2 := Nat.exists_eq_add_of_le' hfuel
      obtain ⟨tokens, hrun, htokens⟩ := exists_run_end hend (.inr ⟨by omega, rfl⟩)
      rw [hrun, List.map_append, htokens]
      rfl
  | cons entry entries ih =>
      obtain ⟨hline, hlines⟩ := List.forall_mem_cons.mp hlines
      rw [entryLines_cons] at hend
      rw [List.length_cons] at hfuel
      by_cases hshort : IsShort entry.1.toList
      · obtain ⟨fuel, rfl⟩ : ∃ rest, fuel = rest + 3 := Nat.exists_eq_add_of_le' (by omega)
        obtain ⟨tokens, next, hrun, hkinds, hnext⟩ :=
          exists_run_entry hend (Nat.le_refl _) hline hshort
        rw [if_pos (Nat.lt_succ_self width)] at hkinds hnext
        rw [if_pos (Nat.lt_succ_self width)] at hnext
        rw [hrun, List.map_append, List.map_append, ih hnext hlines (by omega),
          ← List.append_assoc (tokens.map (·.kind)), hkinds, restKinds, restKinds,
          knownEntries_cons_of_short hshort]
        simp
      · obtain ⟨fuel, rfl⟩ : ∃ rest, fuel = rest + 2 := Nat.exists_eq_add_of_le' (by omega)
        rw [map_kind_run_long_entry hend (Nat.le_refl _) hline hshort, if_pos rfl, restKinds,
          knownEntries_cons_of_not_short hshort]
        simp

/-- The first entry opens the mapping. -/
theorem map_kind_run_nested (hwidth : 0 < width)
    (hend : scanner.AtLineEnd (entryLines width entries) 1 [0])
    (hlines : ∀ entry ∈ entries, IsLineEntry entry) (hfuel : 3 * entries.length + 2 ≤ fuel) :
    (run true fuel scanner).map (·.kind) = scanner.queue.map (·.kind) ++ nestedKinds entries := by
  cases entries with
  | nil =>
      obtain ⟨fuel, rfl⟩ : ∃ rest, fuel = rest + 2 := Nat.exists_eq_add_of_le' hfuel
      obtain ⟨tokens, hrun, htokens⟩ := exists_run_end hend (.inl ⟨rfl, rfl⟩)
      rw [hrun, List.map_append, htokens]
      rfl
  | cons entry entries =>
      obtain ⟨hline, hlines⟩ := List.forall_mem_cons.mp hlines
      rw [entryLines_cons] at hend
      rw [List.length_cons] at hfuel
      by_cases hshort : IsShort entry.1.toList
      · obtain ⟨fuel, rfl⟩ : ∃ rest, fuel = rest + 3 := Nat.exists_eq_add_of_le' (by omega)
        obtain ⟨tokens, next, hrun, hkinds, hnext⟩ :=
          exists_run_entry hend (by omega) hline hshort
        rw [if_neg (by omega)] at hkinds hnext
        rw [if_neg (by omega)] at hnext
        rw [hrun, List.map_append, List.map_append,
          map_kind_run_entries hwidth hnext hlines (by omega),
          ← List.append_assoc (tokens.map (·.kind)), hkinds, nestedKinds, if_pos hshort, restKinds,
          restKinds, knownEntries_cons_of_short hshort]
        simp
      · obtain ⟨fuel, rfl⟩ : ∃ rest, fuel = rest + 2 := Nat.exists_eq_add_of_le' (by omega)
        rw [map_kind_run_long_entry hend (by omega) hline hshort, if_neg (by omega), nestedKinds,
          if_neg hshort]

end Scanner

/-! ### Whole texts -/

/-- Whether a character is read as it is. -/
def IsReadable (c : Char) : Prop := isPrintable c = true ∧ c ≠ '\r' ∧ c ≠ '\x85'

instance : DecidablePred IsReadable := fun _ => inferInstanceAs (Decidable (_ ∧ _ ∧ _))

theorem readable_of_isReadable {text taken block : List Char} {size : Nat}
    (htext : ∀ c ∈ text, IsReadable c) :
    readable taken block size text = ((block ++ taken).reverse ++ text, true) := by
  induction text generalizing taken block size with
  | nil => simp [readable]
  | cons c text ih =>
      obtain ⟨hc, htext⟩ := List.forall_mem_cons.mp htext
      rw [readable, hc.1]
      split <;> simp [ih htext]

theorem unifyBreaks_of_isReadable {text : List Char} (htext : ∀ c ∈ text, IsReadable c) :
    unifyBreaks text = text := by
  induction text with
  | nil => rfl
  | cons c text ih =>
      obtain ⟨⟨-, hreturn, hnext⟩, htext⟩ := List.forall_mem_cons.mp htext
      rw [unifyBreaks, ih htext]
      · exact fun _ hc => absurd hc hreturn
      · exact hreturn
      · exact hnext

theorem tokens_of_isReadable {text : List Char} (htext : ∀ c ∈ text, IsReadable c) :
    tokens text = Scanner.run true (text.length + 3) (.start text) := by
  have hreadable : readable [] [] 0 text = (text, true) := readable_of_isReadable htext
  simp only [tokens, hreadable, unifyBreaks_of_isReadable htext]

theorem IsLine.isReadable {text : List Char} (hline : IsLine text) : ∀ c ∈ text, IsReadable c :=
  fun c hc => ⟨(hline c hc).1, (hline c hc).2.2⟩

theorem isReadable_of_mem_entryLines (hlines : ∀ entry ∈ entries, IsLineEntry entry) :
    ∀ c ∈ entryLines width entries, IsReadable c := by
  intro c hc
  obtain ⟨entry, hentry, hc⟩ := List.mem_flatMap.mp hc
  obtain ⟨hkey, htext⟩ := hlines entry hentry
  simp only [entryLine, String.toList_ofList, List.mem_append, List.mem_cons, List.mem_replicate,
    List.not_mem_nil, or_false] at hc
  rcases hc with (⟨-, rfl⟩ | hmem | rfl | rfl | hmem) | rfl
  · decide
  · rcases mem_keyText hmem with hmem | rfl
    · exact hkey.isReadable c hmem
    · decide
  · decide
  · decide
  · rcases mem_quoted hmem with hmem | rfl
    · exact htext.isReadable c hmem
    · decide
  · decide

theorem isReadable_of_isNameChar {c : Char} (hc : isNameChar c = true) : IsReadable c := by
  refine ⟨?_, ne_of_isNameChar hc rfl, ne_of_isNameChar hc rfl⟩
  have hbetween : ∀ {low high : UInt32}, c.val ≥ low ∧ c.val ≤ high → 0x20 ≤ low.toNat →
      high.toNat ≤ 0x7E → 0x20 ≤ c.toNat ∧ c.toNat ≤ 0x7E := fun hc hlow hhigh =>
    ⟨Nat.le_trans hlow (UInt32.le_iff_toNat_le.mp hc.1),
      Nat.le_trans (UInt32.le_iff_toNat_le.mp hc.2) hhigh⟩
  have hboth : ∀ {p q : Prop} [Decidable p] [Decidable q], (decide p && decide q) = true → p ∧ q := by
    simp
  have hrange : 0x20 ≤ c.toNat ∧ c.toNat ≤ 0x7E := by
    simp only [isNameChar, Bool.or_eq_true, decide_eq_true_eq] at hc
    rcases hc with (hc | rfl) | rfl
    · change ((c.isUpper || c.isLower) || c.isDigit) = true at hc
      rw [Bool.or_eq_true, Bool.or_eq_true] at hc
      rcases hc with (hc | hc) | hc
      · exact hbetween (of_decide_eq_true hc) (by decide) (by decide)
      · exact hbetween (hboth hc) (by decide) (by decide)
      · exact hbetween (hboth hc) (by decide) (by decide)
    · decide
    · decide
  simp [isPrintable, hrange]

theorem length_le_length_entryLines (width : Nat) (entries : List (String × String)) :
    3 * entries.length ≤ (entryLines width entries).length := by
  induction entries with
  | nil => exact Nat.zero_le _
  | cons entry entries ih =>
      rw [entryLines_cons, entryLine, String.toList_ofList]
      simp only [List.length_append, List.length_cons, quoted]
      omega

/-- The first line of a nested mapping opens a mapping for its key. -/
theorem exists_run_start {key : List Char} (hword : isWord key = true) (hshort : IsShort key)
    (rest : List Char) :
    ∃ next, (∀ fuel, Scanner.run true (fuel + 2) (.start (key ++ ':' :: '\n' :: rest)) =
        ⟨.streamStart, .start, .start⟩ :: Scanner.run true fuel next) ∧
      next.queue.map (·.kind) =
        [.blockMappingStart, .key, .scalar (String.ofList key) .plain, .value] ∧
      next.AtLineEnd rest 1 [0] := by
  have hwritten : keyText key = key := if_pos hword
  have hstyle : keyStyle key = .plain := if_pos hword
  let ready : Scanner :=
    ⟨⟨key ++ ':' :: '\n' :: rest, .start⟩, 0, 0, [], true, [none], [], 1⟩
  have hready : ready.AtKey key ('\n' :: rest) :=
    ⟨by rw [hwritten], rfl, rfl, rfl, rfl, Nat.zero_le _⟩
  have hnext : (Scanner.start (key ++ ':' :: '\n' :: rest)).release.2.toNextToken = ready := by
    obtain ⟨c, text, hkey, hc⟩ := Scanner.exists_keyText_cons key
    have htext : ready.cursor.text = c :: (text ++ ':' :: '\n' :: rest) := by
      rw [← List.cons_append, ← hkey, hwritten]
    exact Scanner.toNextToken_of_startsToken htext rfl hc
  have hlines : ∀ c ∈ key, isBreak c = false :=
    fun c hc => not_isBreak_of_isNameChar (isNameChar_of_isWord hword c hc)
  refine ⟨ready.behindKeyAndColon key ('\n' :: rest),
    fun fuel => Scanner.run_key rfl hnext hready hlines hshort rfl, ?_,
    ⟨rfl, rfl, rfl, rfl, rfl, rfl⟩⟩
  simp [Scanner.behindKeyAndColon, Scanner.behindColon, Scanner.behindKey, ready, hstyle, Mark.start]

/-- The tokens of a nested mapping, if its name is a word that is short and all its texts are
lines. -/
theorem map_kind_tokens_nestedMapping {name : String} (hname : isWord name.toList = true)
    (hshort : IsShort name.toList) (hwidth : 0 < width)
    (hlines : ∀ entry ∈ entries, IsLineEntry entry) :
    (tokens (nestedMapping width name entries).toList).map (·.kind) =
      [.streamStart, .blockMappingStart, .key, .scalar name .plain, .value] ++
        nestedKinds entries := by
  have hreadable : ∀ c ∈ (nestedMapping width name entries).toList, IsReadable c := by
    intro c hc
    rw [toList_nestedMapping, List.mem_append, List.mem_cons, List.mem_cons] at hc
    rcases hc with hmem | rfl | rfl | hmem
    · exact isReadable_of_isNameChar (isNameChar_of_isWord hname c hmem)
    · unfold IsReadable
      decide
    · unfold IsReadable
      decide
    · exact isReadable_of_mem_entryLines hlines c hmem
  obtain ⟨next, hrun, hqueue, hend⟩ := exists_run_start hname hshort (entryLines width entries)
  have hlength := length_le_length_entryLines width entries
  rw [tokens_of_isReadable hreadable, toList_nestedMapping, List.length_append, List.length_cons,
    List.length_cons]
  obtain ⟨fuel, hfuel⟩ : ∃ fuel, name.toList.length + ((entryLines width entries).length + 1 + 1) + 3
      = fuel + 2 := ⟨_, rfl⟩
  rw [hfuel, hrun, List.map_cons,
    Scanner.map_kind_run_nested hwidth hend hlines (by omega), hqueue, String.ofList_toList]
  rfl

end OberonImports.Yaml
