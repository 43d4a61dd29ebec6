import OberonImports.Proofs.Config.Base
import OberonImports.Proofs.Config.Entries
import OberonImports.Proofs.Path

/-!
# Reading configurations back

A configuration is told by entries if no key is repeated, each key is a setting's, each text does for
its setting, and the configuration says for each setting what its entry says, or else the default.
The place of the module files is told and not empty, and all paths are UTF-8, which a text can tell. A
text of entries is read as a configuration just if they tell it. So a configuration is read back from
its entries in any order, with or without those that say the default, and entries with a fault are
refused.
-/

namespace OberonImports

open Yaml (IsLine IsLineEntry nestedMapping)
open Lookup (keys)

theorem Setting.isLine_key (setting : Setting) : IsLine setting.key.toList := by
  cases setting <;> decide

namespace Config

variable {config other : Config} {draft : Draft} {order : List Setting}
  {entries : List (String × String)} {setting : Setting} {text : String}

/-- What a configuration says for a setting. A direction and a size may be missing, and a path may
have no text. -/
def text? (config : Config) : Setting → Option String
  | .testDir => config.testDir.text?
  | .outputTxt => config.outputTxt.text?
  | .outputDot => config.outputDot.text?
  | .layout => some config.layout.word
  | .rankdir => config.rankdir
  | .size => config.size
  | .unresolved => some config.unresolved.word
  | .duplicates => some config.duplicates.word
  | .onError => some config.onError.word

/-- A configuration whose paths are UTF-8 is known by what it says for each setting. -/
theorem ext_text? (hpaths : ∀ path ∈ config.paths, Path.IsUtf8 path)
    (htexts : ∀ setting, config.text? setting = other.text? setting) : config = other := by
  have hpath : ∀ {path same : Path}, path ∈ config.paths → path.text? = same.text? →
      path = same := by
    intro path same hmem heq
    obtain ⟨text, rfl⟩ := hpaths path hmem
    rw [Path.text?_ofText] at heq
    exact Path.text?_eq_some.mp heq.symm
  have hlayout : Function.Injective Layout.word := fun first second => by
    cases first <;> cases second <;> decide
  have hunresolved : Function.Injective UnresolvedPolicy.word := fun first second => by
    cases first <;> cases second <;> decide
  have hduplicates : Function.Injective DuplicatePolicy.word := fun first second => by
    cases first <;> cases second <;> decide
  have honError : Function.Injective ErrorPolicy.word := fun first second => by
    cases first <;> cases second <;> decide
  obtain ⟨testDir, outputTxt, outputDot, layout, rankdir, size, unresolved, duplicates, onError⟩ :=
    config
  exact (Config.mk.injEq ..).mpr ⟨hpath (by simp [paths]) (htexts .testDir),
    hpath (by simp [paths]) (htexts .outputTxt), hpath (by simp [paths]) (htexts .outputDot),
    hlayout (Option.some.inj (htexts .layout)), htexts .rankdir, htexts .size,
    hunresolved (Option.some.inj (htexts .unresolved)),
    hduplicates (Option.some.inj (htexts .duplicates)),
    honError (Option.some.inj (htexts .onError))⟩

/-- What a configuration says for a setting that makes a choice is one of the words. -/
theorem takes_text? (htext : config.text? setting = some text) : setting.Takes text := by
  have hchoice : ∀ {α : Type} (all : List α) (word : α → String) (value : α), value ∈ all →
      some (word value) = some text → ∀ words ∈ some (all.map word), text ∈ words := by
    rintro α all word value hvalue htext words hwords
    obtain rfl := Option.some.inj hwords
    obtain rfl := Option.some.inj htext
    exact List.mem_map_of_mem hvalue
  cases setting with
  | layout => exact hchoice _ _ config.layout (by cases config.layout <;> decide) htext
  | unresolved => exact hchoice _ _ config.unresolved (by cases config.unresolved <;> decide) htext
  | duplicates => exact hchoice _ _ config.duplicates (by cases config.duplicates <;> decide) htext
  | onError => exact hchoice _ _ config.onError (by cases config.onError <;> decide) htext
  | testDir | outputTxt | outputDot | rankdir | size => exact fun _ hwords => nomatch hwords

/-! ### Entries that tell a configuration -/

/-- Entries tell a configuration. -/
structure IsToldBy (config : Config) (entries : List (String × String)) : Prop where
  nodup : (keys entries).Nodup
  known : ∀ entry ∈ entries, ∃ setting : Setting, setting.key = entry.1 ∧ setting.Takes entry.2
  testDir_mem : Setting.testDir.key ∈ keys entries
  testDir_ne : config.testDir ≠ []
  paths_isUtf8 : ∀ path ∈ config.paths, Path.IsUtf8 path
  text?_eq : ∀ setting, config.text? setting =
    (entries.lookup setting.key).or ((ofTestDir config.testDir).text? setting)

/-- The configuration of a draft says what the draft holds, or else the default. -/
theorem text?_config? (hdraft : draft.HoldsTexts) (hconfig : draft.config? = some config)
    (setting : Setting) :
    config.text? setting =
      (draft.text? setting).or ((ofTestDir config.testDir).text? setting) := by
  obtain ⟨testDir, htestDir, rfl⟩ := Option.map_eq_some_iff.mp hconfig
  have hpath : ∀ {given : Option Path} (default : Path),
      given.isSome = (given.bind Path.text?).isSome →
      (given.getD default).text? = (given.bind Path.text?).or default.text? := by
    intro given default hgiven
    cases given with
    | none => rfl
    | some path => rw [Option.or_of_isSome hgiven.symm]; rfl
  have houtputTxt := hpath (Path.ofText "output-txt") (hdraft .outputTxt)
  have houtputDot := hpath (Path.ofText "modules_graph.dot") (hdraft .outputDot)
  obtain ⟨_, outputTxt, outputDot, layout, rankdir, size, unresolved, duplicates, onError⟩ := draft
  cases setting with
  | testDir =>
    rw [Draft.text?, htestDir]
    exact Option.or_self.symm
  | outputTxt => exact houtputTxt
  | outputDot => exact houtputDot
  | layout => cases layout <;> rfl
  | rankdir => rcases rankdir with _ | _ | _ <;> rfl
  | size => rcases size with _ | _ | _ <;> rfl
  | unresolved => cases unresolved <;> rfl
  | duplicates => cases duplicates <;> rfl
  | onError => cases onError <;> rfl

theorem exists_config? (hdraft : draft.HoldsTexts) :
    (∃ config, draft.config? = some config) ↔ draft.text? .testDir ≠ none := by
  rw [← Option.isSome_iff_ne_none, ← hdraft .testDir, ← Option.isSome_iff_exists, Draft.config?,
    Option.isSome_map, Draft.has]

theorem isUtf8_of_config? (hdraft : draft.HoldsTexts) (hconfig : draft.config? = some config) :
    ∀ path ∈ config.paths, Path.IsUtf8 path := by
  obtain ⟨testDir, htestDir, rfl⟩ := Option.map_eq_some_iff.mp hconfig
  have hpath : ∀ {given : Option Path} (default : String),
      given.isSome = (given.bind Path.text?).isSome → Path.IsUtf8 (given.getD (.ofText default)) := by
    intro given default hgiven
    cases given with
    | none => exact ⟨default, rfl⟩
    | some path => exact Path.isUtf8_iff.mpr (Option.isSome_iff_exists.mp hgiven.symm)
  have hplace : Path.IsUtf8 testDir := by simpa [htestDir] using hpath "" (hdraft .testDir)
  simp only [paths, List.forall_mem_cons]
  exact ⟨hplace, hpath "output-txt" (hdraft .outputTxt),
    hpath "modules_graph.dot" (hdraft .outputDot), by simp⟩

theorem ofEntries?_eq_some : ofEntries? entries = some config ↔ config.IsToldBy entries := by
  constructor
  · intro hread
    obtain ⟨draft, hdraft, hread⟩ := Option.bind_eq_some_iff.mp hread
    obtain ⟨read, hconfig, hread⟩ := Option.bind_eq_some_iff.mp hread
    obtain ⟨hknown, hnodup⟩ := Draft.exists_foldlM_empty.mp ⟨draft, hdraft⟩
    split at hread
    next => cases hread
    next hne =>
      obtain rfl := Option.some.inj hread
      have hholds := Draft.holdsTexts_foldlM_empty hdraft
      refine ⟨hnodup, hknown, ?_, by simpa using hne, isUtf8_of_config? hholds hconfig,
        fun setting => ?_⟩
      · have hgiven := (exists_config? hholds).mp ⟨read, hconfig⟩
        rw [Draft.text?_foldlM_empty hdraft] at hgiven
        exact not_not.mp (mt Lookup.lookup_eq_none.mpr hgiven)
      · rw [text?_config? hholds hconfig, Draft.text?_foldlM_empty hdraft]
  · intro htold
    obtain ⟨draft, hdraft⟩ := Draft.exists_foldlM_empty.mpr ⟨htold.known, htold.nodup⟩
    have hholds := Draft.holdsTexts_foldlM_empty hdraft
    obtain ⟨testDir, htestDir⟩ := Lookup.exists_lookup htold.testDir_mem
    have hheld : draft.text? .testDir = some testDir := by
      rw [Draft.text?_foldlM_empty hdraft, htestDir]
    obtain ⟨read, hconfig⟩ := (exists_config? hholds).mpr (hheld ▸ Option.some_ne_none _)
    have hsame : read.testDir = config.testDir := by
      have hread : read.text? .testDir = some testDir := by
        rw [text?_config? hholds hconfig, hheld, Option.some_or]
      have htold : config.text? .testDir = some testDir := by
        rw [htold.text?_eq, htestDir, Option.some_or]
      exact (Path.text?_eq_some.mp hread).symm.trans (Path.text?_eq_some.mp htold)
    obtain rfl : read = config := ext_text? (isUtf8_of_config? hholds hconfig) fun setting => by
      rw [text?_config? hholds hconfig, Draft.text?_foldlM_empty hdraft, htold.text?_eq, hsame]
    simp [ofEntries?, hdraft, hconfig, htold.testDir_ne]

/-- A text of entries is read as a configuration just if they tell it. -/
theorem ofText_eq_ok {width : Nat} (hwidth : 0 < width)
    (hlines : ∀ entry ∈ entries, IsLineEntry entry) :
    Config.ofText (nestedMapping width appKey entries) = .ok config ↔ config.IsToldBy entries := by
  rw [← ofEntries?_eq_some, ← toOption_ofText_entries hwidth hlines]
  cases Config.ofText (nestedMapping width appKey entries) <;> simp [Except.toOption]

/-! ### The entries of a configuration -/

/-- The entries of a configuration for some settings, in their order. A direction or a size that is
missing has no entry. -/
def toEntries (config : Config) (order : List Setting) : List (String × String) :=
  order.filterMap fun setting => (config.text? setting).map (setting.key, ·)

/-- Settings are enough to tell a configuration: none is repeated, the place of the module files is
among them, and those left out have their default. -/
structure IsEnough (config : Config) (order : List Setting) : Prop where
  nodup : order.Nodup
  testDir_mem : .testDir ∈ order
  text?_eq : ∀ setting ∉ order,
    config.text? setting = (ofTestDir config.testDir).text? setting

theorem mem_toEntries : (setting.key, text) ∈ config.toEntries order ↔
    setting ∈ order ∧ config.text? setting = some text := by
  simp only [toEntries, List.mem_filterMap, Option.map_eq_some_iff, Prod.mk.injEq]
  constructor
  · rintro ⟨other, hother, _, htext, hkey, rfl⟩
    obtain rfl := Setting.key_injective hkey
    exact ⟨hother, htext⟩
  · rintro ⟨hsetting, htext⟩
    exact ⟨setting, hsetting, text, htext, rfl, rfl⟩

theorem exists_of_mem_toEntries {entry : String × String} (hentry : entry ∈ config.toEntries order) :
    ∃ setting : Setting, setting.key = entry.1 ∧ config.text? setting = some entry.2 := by
  obtain ⟨setting, -, hsetting⟩ := List.mem_filterMap.mp hentry
  obtain ⟨text, htext, rfl⟩ := Option.map_eq_some_iff.mp hsetting
  exact ⟨setting, rfl, htext⟩

theorem nodup_keys_toEntries (hnodup : order.Nodup) : (keys (config.toEntries order)).Nodup := by
  rw [keys, List.Nodup, List.pairwise_map, toEntries, List.pairwise_filterMap]
  refine hnodup.imp fun hne first hfirst second hsecond hkeys => ?_
  obtain ⟨_, -, rfl⟩ := Option.map_eq_some_iff.mp hfirst
  obtain ⟨_, -, rfl⟩ := Option.map_eq_some_iff.mp hsecond
  exact hne (Setting.key_injective hkeys)

/-- What may be missing is missing by default. -/
theorem text?_ofTestDir_of_none {testDir : Path} (hpaths : ∀ path ∈ config.paths, Path.IsUtf8 path)
    (hnone : config.text? setting = none) : (ofTestDir testDir).text? setting = none := by
  have hpath : ∀ path ∈ config.paths, path.text? ≠ none := by
    intro path hmem
    obtain ⟨text, htext⟩ := Path.isUtf8_iff.mp (hpaths path hmem)
    simp [htext]
  cases setting with
  | rankdir | size => rfl
  | testDir | outputTxt | outputDot => exact absurd hnone (hpath _ (by simp [paths]))
  | layout | unresolved | duplicates | onError => cases hnone

theorem isToldBy_toEntries (henough : config.IsEnough order) (htestDir : config.testDir ≠ [])
    (hpaths : ∀ path ∈ config.paths, Path.IsUtf8 path) :
    config.IsToldBy (config.toEntries order) := by
  obtain ⟨place, hplace⟩ := Path.isUtf8_iff.mp (hpaths config.testDir (by simp [paths]))
  have hnodup : (keys (config.toEntries order)).Nodup := nodup_keys_toEntries henough.nodup
  refine ⟨hnodup, fun entry hentry => ?_, ?_, htestDir, hpaths, fun setting => ?_⟩
  · obtain ⟨setting, hkey, htext⟩ := exists_of_mem_toEntries hentry
    exact ⟨setting, hkey, takes_text? htext⟩
  · exact Lookup.mem_keys_of_mem (mem_toEntries.mpr ⟨henough.testDir_mem, hplace⟩)
  · cases hlookup : (config.toEntries order).lookup setting.key with
    | some text =>
        rw [Lookup.lookup_eq_some hnodup, mem_toEntries] at hlookup
        exact hlookup.2
    | none =>
        -- The setting was left out at its default, or it has nothing to say.
        rw [Option.none_or]
        by_cases hsetting : setting ∈ order
        · have hnone : config.text? setting = none := Option.eq_none_iff_forall_ne_some.mpr
            fun text htext => Lookup.lookup_eq_none.mp hlookup
              (Lookup.mem_keys_of_mem (mem_toEntries.mpr ⟨hsetting, htext⟩))
          rw [hnone, text?_ofTestDir_of_none hpaths hnone]
        · exact henough.text?_eq setting hsetting

/-! ### Faults -/

/-- A fault of entries: the place of the module files is left out or empty, a key is repeated, a key is
no setting's, or the text for a setting that makes a choice is none of its words. -/
inductive IsFaulty (entries : List (String × String)) : Prop where
  | missing (hmissing : Setting.testDir.key ∉ keys entries)
  | empty (hempty : (Setting.testDir.key, "") ∈ entries)
  | repeated (hrepeated : ¬ (keys entries).Nodup)
  | unknown (key text : String) (hentry : (key, text) ∈ entries)
      (hkey : ∀ setting : Setting, setting.key ≠ key)
  | noWord (setting : Setting) (words : List String) (text : String)
      (hentry : (setting.key, text) ∈ entries) (hwords : setting.words? = some words)
      (htext : text ∉ words)

theorem IsToldBy.not_isFaulty (htold : config.IsToldBy entries) : ¬ IsFaulty entries := by
  rintro (hmissing | hempty | hrepeated | ⟨key, text, hentry, hkey⟩ |
    ⟨setting, words, text, hentry, hwords, htext⟩)
  · exact hmissing htold.testDir_mem
  · have htestDir : config.text? .testDir = some "" := by
      rw [htold.text?_eq, (Lookup.lookup_eq_some htold.nodup).mpr hempty, Option.some_or]
    exact htold.testDir_ne (Path.text?_eq_some.mp htestDir).symm
  · exact hrepeated htold.nodup
  · obtain ⟨setting, hsetting, -⟩ := htold.known _ hentry
    exact hkey setting hsetting
  · obtain ⟨other, hother, htakes⟩ := htold.known _ hentry
    obtain rfl := Setting.key_injective hother
    exact htext (htakes words hwords)

/-- A configuration whose paths are UTF-8 is read back from the text of its entries, if those are
enough to tell it and its texts are lines. A text of entries with a fault is refused. -/
theorem toEntries_read_back (width : Nat) (hwidth : 0 < width) :
    (∀ (config : Config) (order : List Setting), config.testDir ≠ [] →
      (∀ path ∈ [config.testDir, config.outputTxt, config.outputDot], Path.IsUtf8 path) →
      config.IsEnough order →
      (∀ setting, ∀ text ∈ config.text? setting, IsLine text.toList) →
      Config.ofText (nestedMapping width "app" (config.toEntries order)) = .ok config) ∧
    ∀ entries : List (String × String), (∀ entry ∈ entries, IsLineEntry entry) → IsFaulty entries →
      ∃ error, Config.ofText (nestedMapping width "app" entries) = .error error := by
  constructor
  · intro config order htestDir hpaths henough htexts
    have hlines : ∀ entry ∈ config.toEntries order, IsLineEntry entry := by
      intro entry hentry
      obtain ⟨setting, hkey, htext⟩ := exists_of_mem_toEntries hentry
      exact ⟨hkey ▸ setting.isLine_key, htexts setting entry.2 htext⟩
    exact (ofText_eq_ok hwidth hlines).mpr (isToldBy_toEntries henough htestDir hpaths)
  · intro entries hlines hfaulty
    cases hread : Config.ofText (nestedMapping width "app" entries) with
    | error error => exact ⟨error, rfl⟩
    | ok config => exact absurd hfaulty ((ofText_eq_ok hwidth hlines).mp hread).not_isFaulty

/-- A configuration whose texts have quotes, colons and number signs, or look like a null. -/
def withOddTexts : Config where
  testDir := Path.ofText "it's #1: src"
  outputTxt := Path.ofText "output-txt"
  outputDot := Path.ofText "a\\b: 'c'.dot"
  layout := .alphabetic
  rankdir := some "null"
  size := none
  unresolved := .drop
  duplicates := .merge
  onError := .abort

theorem withOddTexts_read_back :
    Config.ofText ("app:\n  rankdir: 'null'\n  duplicates: 'merge'\n  test-dir: 'it''s #1: src'\n" ++
        "  layout: 'alphabetic'\n  output-dot: 'a\\b: ''c''.dot'\n") = .ok withOddTexts ∧
      ∃ error, Config.ofText "app:\n  test-dir: 'src'\n  'on error': 'abort'\n" = .error error := by
  have hread := toEntries_read_back 2 (by decide)
  constructor
  · let order : List Setting := [.rankdir, .size, .duplicates, .testDir, .layout, .outputDot]
    have henough : withOddTexts.IsEnough order := by
      refine ⟨by decide, by decide, fun setting hsetting => ?_⟩
      cases setting with
      | outputTxt | unresolved | onError => rfl
      | _ => exact absurd (by decide) hsetting
    have htexts : ∀ setting, ∀ text ∈ withOddTexts.text? setting, IsLine text.toList := by
      rintro setting text htext
      cases setting <;> cases htext <;> decide
    have hpaths : ∀ path ∈ [withOddTexts.testDir, withOddTexts.outputTxt, withOddTexts.outputDot],
        Path.IsUtf8 path := by
      simp only [List.forall_mem_cons]
      exact ⟨⟨_, rfl⟩, ⟨_, rfl⟩, ⟨_, rfl⟩, by simp⟩
    exact hread.1 withOddTexts order (by decide) hpaths henough htexts
  · have hlines : ∀ entry ∈ [("test-dir", "src"), ("on error", "abort")], IsLineEntry entry := by
      simp only [List.forall_mem_cons]
      decide
    refine hread.2 [("test-dir", "src"), ("on error", "abort")] hlines
      (.unknown "on error" "abort" (by decide) fun setting => ?_)
    cases setting <;> decide

end Config

end OberonImports
