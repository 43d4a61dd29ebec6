import OberonImports.Config.Setting
import OberonImports.Proofs.Lookup

/-!
# Drafts of entries

An entry is a key with a text. Entries are given to a draft one after the other: each must be for a
setting that the draft does not have, and its text must do for that setting. They can all be given
just if they fit, and then the draft holds for each setting what it held before or the text of its
entry.
-/

namespace OberonImports

open Lookup (keys keys_cons)

namespace Setting

theorem ofKey?_key (setting : Setting) : ofKey? setting.key = some setting := by
  cases setting <;> decide

theorem key_of_ofKey? {key : String} {setting : Setting} (hsetting : ofKey? key = some setting) :
    setting.key = key := by
  simpa using List.find?_some hsetting

theorem key_injective : Function.Injective key := fun first second hkeys =>
  Option.some.inj ((ofKey?_key first).symm.trans (hkeys ▸ ofKey?_key second))

/-- The words of a setting that makes a choice. -/
def words? : Setting → Option (List String)
  | layout => some (Layout.all.map Layout.word)
  | unresolved => some (UnresolvedPolicy.all.map UnresolvedPolicy.word)
  | duplicates => some (DuplicatePolicy.all.map DuplicatePolicy.word)
  | onError => some (ErrorPolicy.all.map ErrorPolicy.word)
  | testDir | outputTxt | outputDot | rankdir | size => none

/-- A text does for a setting: it is a word if the setting makes a choice. -/
def Takes (setting : Setting) (text : String) : Prop := ∀ words ∈ setting.words?, text ∈ words

end Setting

/-- The alternative whose word a text is. -/
def ofWord? {α : Type} (all : List α) (word : α → String) (text : String) : Option α :=
  all.find? (word · = text)

theorem word_of_ofWord? {α : Type} {all : List α} {word : α → String} {text : String} {value : α}
    (hvalue : ofWord? all word text = some value) : word value = text := by
  simpa using List.find?_some hvalue

theorem exists_ofWord? {α : Type} {all : List α} {word : α → String} {text : String} :
    (∃ value, ofWord? all word text = some value) ↔ text ∈ all.map word := by
  rw [ofWord?, ← Option.isSome_iff_exists, List.find?_isSome, List.mem_map]
  simp only [decide_eq_true_eq]

namespace Draft

variable {draft next last : Draft} {setting other : Setting} {text : String}
  {entry : String × String} {entries : List (String × String)}

/-- The draft with a setting as a text tells it. -/
def set? (draft : Draft) (text : String) : Setting → Option Draft
  | .testDir => some { draft with testDir := some (.ofText text) }
  | .outputTxt => some { draft with outputTxt := some (.ofText text) }
  | .outputDot => some { draft with outputDot := some (.ofText text) }
  | .layout => (ofWord? Layout.all Layout.word text).map ({ draft with layout := some · })
  | .rankdir => some { draft with rankdir := some (some text) }
  | .size => some { draft with size := some (some text) }
  | .unresolved => (ofWord? UnresolvedPolicy.all UnresolvedPolicy.word text).map
      ({ draft with unresolved := some · })
  | .duplicates => (ofWord? DuplicatePolicy.all DuplicatePolicy.word text).map
      ({ draft with duplicates := some · })
  | .onError => (ofWord? ErrorPolicy.all ErrorPolicy.word text).map ({ draft with onError := some · })

/-- The draft with one more setting, which must not be given yet. -/
def give? (draft : Draft) (entry : String × String) : Option Draft := do
  let setting ← Setting.ofKey? entry.1
  if draft.has setting then none else draft.set? entry.2 setting

/-- The text that a draft holds for a setting. -/
def text? (draft : Draft) : Setting → Option String
  | .testDir => draft.testDir.bind Path.text?
  | .outputTxt => draft.outputTxt.bind Path.text?
  | .outputDot => draft.outputDot.bind Path.text?
  | .layout => draft.layout.map Layout.word
  | .rankdir => draft.rankdir.join
  | .size => draft.size.join
  | .unresolved => draft.unresolved.map UnresolvedPolicy.word
  | .duplicates => draft.duplicates.map DuplicatePolicy.word
  | .onError => draft.onError.map ErrorPolicy.word

/-- Whatever a draft has, it holds a text for: its paths are UTF-8, and no direction and no size is
given as none. -/
def HoldsTexts (draft : Draft) : Prop := ∀ setting, draft.has setting = (draft.text? setting).isSome

theorem holdsTexts_empty : HoldsTexts .empty := fun setting => by cases setting <;> rfl

theorem text?_empty (setting : Setting) : Draft.empty.text? setting = none := by
  cases setting <;> rfl

/-! ### One setting -/

theorem exists_set? : (∃ next, draft.set? text setting = some next) ↔ setting.Takes text := by
  have hchoice : ∀ {α : Type} (all : List α) (word : α → String) (update : α → Draft),
      (∃ next, (ofWord? all word text).map update = some next) ↔
        ∀ words ∈ some (all.map word), text ∈ words := by
    intro α all word update
    simp [← exists_ofWord?, Option.map_eq_some_iff]
  cases setting with
  | layout | unresolved | duplicates | onError => exact hchoice _ _ _
  | testDir | outputTxt | outputDot | rankdir | size => simp [set?, Setting.Takes, Setting.words?]

/-- A setting that is told by a text is held as that text, and no other setting is changed. -/
theorem text?_set? (hnext : draft.set? text setting = some next) :
    next.text? other = if other = setting then some text else draft.text? other := by
  cases setting with
  | layout | unresolved | duplicates | onError =>
      obtain ⟨value, hvalue, rfl⟩ := Option.map_eq_some_iff.mp hnext
      cases other <;> simp [text?, word_of_ofWord? hvalue]
  | testDir | outputTxt | outputDot | rankdir | size =>
      obtain rfl := Option.some.inj hnext
      cases other <;> simp [text?]

theorem has_set? (hnext : draft.set? text setting = some next) :
    next.has other = (decide (other = setting) || draft.has other) := by
  cases setting with
  | layout | unresolved | duplicates | onError =>
      obtain ⟨value, -, rfl⟩ := Option.map_eq_some_iff.mp hnext
      cases other <;> rfl
  | testDir | outputTxt | outputDot | rankdir | size =>
      obtain rfl := Option.some.inj hnext
      cases other <;> rfl

theorem HoldsTexts.set? (hdraft : draft.HoldsTexts) (hnext : draft.set? text setting = some next) :
    next.HoldsTexts := by
  intro other
  rw [has_set? hnext, text?_set? hnext, hdraft other]
  by_cases hsame : other = setting <;> simp [hsame]

/-! ### Entries -/

theorem give?_eq_some (hdraft : draft.HoldsTexts) : draft.give? entry = some next ↔
    ∃ setting : Setting, setting.key = entry.1 ∧ draft.text? setting = none ∧
      draft.set? entry.2 setting = some next := by
  rw [give?]
  constructor
  · intro hgive
    obtain ⟨setting, hsetting, hnext⟩ := Option.bind_eq_some_iff.mp hgive
    rw [hdraft setting] at hnext
    split at hnext
    next => cases hnext
    next hfree => exact ⟨setting, Setting.key_of_ofKey? hsetting, by simpa using hfree, hnext⟩
  · rintro ⟨setting, hkey, hfree, hnext⟩
    rw [← hkey, Setting.ofKey?_key]
    simpa [hdraft setting, hfree] using hnext

/-- An entry fits a draft that has a place for it: it is for a setting that the draft does not hold,
and its text does for that setting. -/
def Fits (draft : Draft) (entry : String × String) : Prop :=
  ∃ setting : Setting, setting.key = entry.1 ∧ draft.text? setting = none ∧ setting.Takes entry.2

theorem exists_give? (hdraft : draft.HoldsTexts) :
    (∃ next, draft.give? entry = some next) ↔ draft.Fits entry := by
  simp only [give?_eq_some hdraft]
  constructor
  · rintro ⟨next, setting, hkey, hfree, hnext⟩
    exact ⟨setting, hkey, hfree, exists_set?.mp ⟨next, hnext⟩⟩
  · rintro ⟨setting, hkey, hfree, htakes⟩
    obtain ⟨next, hnext⟩ := exists_set?.mpr htakes
    exact ⟨next, setting, hkey, hfree, hnext⟩

theorem HoldsTexts.give? (hdraft : draft.HoldsTexts) (hnext : draft.give? entry = some next) :
    next.HoldsTexts := by
  obtain ⟨setting, -, -, hset⟩ := (give?_eq_some hdraft).mp hnext
  exact hdraft.set? hset

theorem HoldsTexts.foldlM_give? (hdraft : draft.HoldsTexts)
    (hlast : entries.foldlM Draft.give? draft = some last) : last.HoldsTexts := by
  induction entries generalizing draft with
  | nil =>
      obtain rfl := Option.some.inj hlast
      exact hdraft
  | cons entry entries ih =>
      rw [List.foldlM_cons] at hlast
      obtain ⟨next, hnext, hlast⟩ := Option.bind_eq_some_iff.mp hlast
      exact ih (hdraft.give? hnext) hlast

theorem text?_give? (hdraft : draft.HoldsTexts) (hnext : draft.give? entry = some next) :
    next.text? other = if other.key = entry.1 then some entry.2 else draft.text? other := by
  obtain ⟨setting, hkey, -, hset⟩ := (give?_eq_some hdraft).mp hnext
  rw [text?_set? hset, ← hkey]
  simp only [Setting.key_injective.eq_iff]

/-- Behind an entry, just those entries fit that fitted before it and have another key. -/
theorem fits_give? {later : String × String} (hdraft : draft.HoldsTexts)
    (hnext : draft.give? entry = some next) :
    next.Fits later ↔ draft.Fits later ∧ later.1 ≠ entry.1 := by
  simp only [Fits, text?_give? hdraft hnext]
  constructor
  · rintro ⟨setting, hkey, hfree, htakes⟩
    split at hfree
    next => cases hfree
    next hne => exact ⟨⟨setting, hkey, hfree, htakes⟩, hkey ▸ hne⟩
  · rintro ⟨⟨setting, hkey, hfree, htakes⟩, hne⟩
    exact ⟨setting, hkey, by rw [if_neg (hkey ▸ hne), hfree], htakes⟩

/-- Entries can be given just if each of them fits and no key is repeated. -/
theorem exists_foldlM_give? (hdraft : draft.HoldsTexts) :
    (∃ last, entries.foldlM give? draft = some last) ↔
      (∀ entry ∈ entries, draft.Fits entry) ∧ (keys entries).Nodup := by
  induction entries generalizing draft with
  | nil => simp
  | cons entry entries ih =>
      rw [List.forall_mem_cons, keys_cons, List.nodup_cons, List.foldlM_cons]
      cases hnext : draft.give? entry with
      | none =>
          have hmisfit : ¬ draft.Fits entry := by simp [← exists_give? hdraft, hnext]
          simp [hmisfit]
      | some next =>
          have hfits : draft.Fits entry := (exists_give? hdraft).mp ⟨next, hnext⟩
          have hfresh : entry.1 ∉ keys entries ↔ ∀ later ∈ entries, later.1 ≠ entry.1 := by
            simp only [keys, List.mem_map, not_exists, not_and, ne_eq]
          refine (ih (hdraft.give? hnext)).trans ?_
          simp only [fits_give? hdraft hnext, hfits, hfresh, true_and, imp_and, forall_and, and_assoc]

theorem foldlM_give?_of_misfit (hdraft : draft.HoldsTexts) (hentry : entry ∈ entries)
    (hmisfit : ¬ draft.Fits entry) : entries.foldlM give? draft = none := by
  rw [Option.eq_none_iff_forall_ne_some]
  intro last hlast
  exact hmisfit (((exists_foldlM_give? hdraft).mp ⟨last, hlast⟩).1 entry hentry)

/-- By induction on the entries: the draft holds what it held before, and the texts of the entries. -/
theorem text?_foldlM_give? (hdraft : draft.HoldsTexts)
    (hlast : entries.foldlM give? draft = some last) (setting : Setting) :
    last.text? setting = (draft.text? setting).or (entries.lookup setting.key) := by
  induction entries generalizing draft with
  | nil =>
      obtain rfl := Option.some.inj hlast
      simp
  | cons entry entries ih =>
      rw [List.foldlM_cons] at hlast
      obtain ⟨next, hnext, hlast⟩ := Option.bind_eq_some_iff.mp hlast
      obtain ⟨target, hkey, hfree, -⟩ := (exists_give? hdraft).mp ⟨next, hnext⟩
      rw [ih (hdraft.give? hnext) hlast, text?_give? hdraft hnext, List.lookup_cons]
      by_cases hsame : setting.key = entry.1
      · obtain rfl := Setting.key_injective (hsame.trans hkey.symm)
        simp [hsame, hfree]
      · simp [hsame, beq_false_of_ne hsame]

/-! ### From the empty draft -/

/-- Entries can be given from the start just if each is for a setting and has a text that does for it,
and no key is repeated. -/
theorem exists_foldlM_empty : (∃ last, entries.foldlM give? .empty = some last) ↔
    (∀ entry ∈ entries, ∃ setting : Setting, setting.key = entry.1 ∧ setting.Takes entry.2) ∧
      (keys entries).Nodup := by
  rw [exists_foldlM_give? holdsTexts_empty]
  simp only [Fits, text?_empty, true_and]

theorem holdsTexts_foldlM_empty (hlast : entries.foldlM give? .empty = some last) :
    last.HoldsTexts :=
  holdsTexts_empty.foldlM_give? hlast

theorem text?_foldlM_empty (hlast : entries.foldlM give? .empty = some last) (setting : Setting) :
    last.text? setting = entries.lookup setting.key := by
  rw [text?_foldlM_give? holdsTexts_empty hlast, text?_empty, Option.none_or]

end Draft

end OberonImports
