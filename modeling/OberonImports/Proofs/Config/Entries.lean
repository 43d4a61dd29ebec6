import OberonImports.Config.OfYaml
import OberonImports.Proofs.Config.Draft
import OberonImports.Proofs.Yaml.NestedMapping

/-!
# Configurations read from entries

The settings of a configuration text that is written with quoted texts are read one by one: each must
be a setting that is not yet given, and its text must do for it. In the end the place of the module
files must be given and not be empty. The text is refused in all other cases.
-/

namespace OberonImports

open Yaml (Document PlacedEvent NodeEvent Scalar ScalarStyle untagged entryScalars IsShort IsLineEntry
  knownEntries knownEntries_eq_self nestedNodes nestedMapping document_nestedMapping)

/-- The key of a setting is not too long for a key. -/
theorem Setting.isShort_key (setting : Setting) : IsShort setting.key.toList := by
  cases setting <;> decide

namespace Config

/-- The configuration that entries tell. -/
def ofEntries? (entries : List (String × String)) : Option Config := do
  let draft ← entries.foldlM Draft.give? .empty
  let config ← draft.config?
  if config.testDir.isEmpty then none else some config

variable {ε α β : Type} {document : Document} {draft : Draft} {path : KeyPath} {text : String}
  {entry : String × String} {entries : List (String × String)} {event : PlacedEvent}
  {events rest : List PlacedEvent}

theorem toOption_ok (value : α) : (Except.ok value : Except ε α).toOption = some value := rfl

theorem toOption_bind (read : Except ε α) (next : α → Except ε β) :
    (read >>= next).toOption = read.toOption.bind fun value => (next value).toOption := by
  cases read <;> rfl

theorem toOption_mapError {ε' : Type} (read : Except ε α) (f : ε → ε') :
    (read.mapError f).toOption = read.toOption := by
  cases read <;> rfl

/-! ### Settings -/

theorem target_of_scalar {scalar : Scalar} (hevent : event.event = .scalar scalar) :
    target document event = event := by
  rw [target, hevent]

theorem toOption_choice {all : List α} {word : α → String}
    (hevent : event.event = .scalar (untagged text .singleQuoted)) :
    (choice all word path event).toOption = ofWord? all word text := by
  have hvariant : (variant all word text).toOption = ofWord? all word text := by
    rw [variant, ofWord?]
    cases all.find? (word · = text) <;> rfl
  simp [choice, hevent, untagged, variantTag?, toOption_mapError, hvariant]

/-- A quoted text is what the setting says, if it does for the setting. -/
theorem toOption_assign (hevent : event.event = .scalar (untagged text .singleQuoted))
    (setting : Setting) : (assign draft path event setting).toOption = draft.set? text setting := by
  have htext : ∀ expected, Config.text path expected event = .ok text := by
    intro expected
    rw [Config.text, hevent]
    rfl
  have hpath : Config.path path event = .ok (.ofText text) := by
    rw [Config.path, htext]
    rfl
  have hoptional : optionalText path event = .ok (some text) := by
    rw [optionalText, hevent, htext]
    rfl
  cases setting with
  | testDir | outputTxt | outputDot =>
      simp only [assign, hpath]
      rfl
  | rankdir | size =>
      simp only [assign, hoptional]
      rfl
  | layout | unresolved | duplicates | onError =>
      rw [assign, toOption_bind, toOption_choice hevent, Draft.set?, Option.map_eq_bind]
      rfl

theorem fieldKey_of_scalar {scalar : Scalar} (hevent : event.event = .scalar scalar) :
    fieldKey document path event = .ok (scalar.text, some scalar.text) := by
  rw [fieldKey, target_of_scalar hevent, text, hevent]
  rfl

/-- An entry gives one more setting, or the settings are refused. -/
theorem toOption_settings_entry {key value : PlacedEvent} {style : ScalarStyle}
    (hkey : key.event = .scalar (untagged entry.1 style))
    (hvalue : value.event = .scalar (untagged entry.2 .singleQuoted)) :
    (settings document path draft (key :: value :: rest)).toOption =
      (draft.give? entry).bind fun draft => (settings document path draft rest).toOption := by
  have hnext : ∀ setting : Setting, (assignFrom document draft (path ++ [some entry.1]) value
      setting).toOption = draft.set? entry.2 setting := by
    intro setting
    rw [assignFrom, target_of_scalar hvalue, hvalue]
    exact toOption_assign hvalue setting
  have hname : fieldKey document path key = .ok (entry.1, some entry.1) := fieldKey_of_scalar hkey
  have hopen : key.event ≠ .mappingEnd := by simp [hkey]
  rw [settings, if_neg hopen, hname, Draft.give?]
  simp only [bind, Except.bind]
  cases Setting.ofKey? entry.1 with
  | none => rfl
  | some setting =>
      by_cases hhas : draft.has setting
      · simp only [hhas, Option.bind_some, if_true]
        rfl
      · simp only [hhas, Option.bind_some, Bool.false_eq_true, if_false, ← hnext]
        cases assignFrom document draft (path ++ [some entry.1]) value setting <;> rfl

/-- By induction on the entries: they are given one after the other. -/
theorem toOption_settings
    (hevents : events.map (·.event) = (entries.flatMap entryScalars).map .scalar) :
    (settings document path draft (events ++ rest)).toOption =
      (entries.foldlM Draft.give? draft).bind fun draft =>
        (settings document path draft rest).toOption := by
  induction entries generalizing events draft with
  | nil =>
      obtain rfl : events = [] := by simpa using hevents
      rfl
  | cons entry entries ih =>
      simp only [List.flatMap_cons, entryScalars, List.cons_append, List.nil_append, List.map_cons,
        List.map_eq_cons_iff] at hevents
      obtain ⟨key, _, rfl, hkey, value, events, rfl, hvalue, hevents⟩ := hevents
      rw [List.cons_append, List.cons_append, toOption_settings_entry hkey hvalue, List.foldlM_cons]
      cases draft.give? entry with
      | none => rfl
      | some next => exact ih hevents

/-! ### Mappings -/

theorem settings_mappingEnd (hevent : event.event = .mappingEnd) :
    settings document path draft (event :: rest) = .ok (draft, rest) := by
  rw [settings, if_pos hevent]

/-- The configuration of the settings that a mapping gives. -/
theorem toOption_mapping {opening : PlacedEvent} {tag : Option Yaml.TagOctets}
    (hopening : opening.event = .mappingStart tag) :
    (mapping document path (opening :: events)).toOption =
      (settings document path .empty events).toOption.bind fun given =>
        given.1.config?.map (·, given.2) := by
  have hcontent : content path "struct AppConfig" (opening :: events) = .ok events := by
    rw [content, hopening]
  rw [mapping, toOption_mapError, hcontent, toOption_bind, toOption_ok, Option.bind_some,
    toOption_bind]
  refine congrArg _ (funext fun ⟨draft, rest⟩ => ?_)
  dsimp only
  cases draft.config? <;> rfl

/-- A scalar gives no configuration: it is no mapping, or it stands for one without settings. -/
theorem mapping_of_scalar {scalar : Scalar} (hevent : event.event = .scalar scalar) :
    (mapping document path (event :: events)).toOption = none := by
  rw [mapping, toOption_mapError, toOption_bind, content, hevent]
  dsimp only
  by_cases hempty : scalar.text.isEmpty = true ∧ scalar.style = .plain
  · rw [if_pos hempty, toOption_ok, Option.bind_some, toOption_bind, settings_mappingEnd rfl]
    rfl
  · rw [if_neg hempty]
    rfl

theorem mappingOrAlias_of_not_alias (hevent : ∀ number, event.event ≠ .alias number) :
    mappingOrAlias document path (event :: events) = mapping document path (event :: events) := by
  unfold mappingOrAlias
  split
  next number _ _ heq =>
    cases heq
    exact absurd rfl (hevent number)
  next => rfl

/-- Behind its only field, a configuration text must come to the end of its mapping. -/
theorem toOption_lastField (events : List PlacedEvent) : (lastField document events).toOption =
    if events.head?.map (·.event) = some .mappingEnd then some () else none := by
  cases events with
  | nil => rfl
  | cons event events =>
      by_cases hend : event.event = .mappingEnd
      · simp [lastField, hend, Except.toOption]
      · rw [lastField, if_neg hend, toOption_bind, if_neg (by simpa using hend)]
        cases appName document event <;> rfl

/-- The configuration of a document whose first field has the right name. -/
theorem toOption_ofDocument {opening name : PlacedEvent} {tag : Option Yaml.TagOctets}
    {style : ScalarStyle} (hevents : document.events = opening :: name :: event :: events)
    (hopening : opening.event = .mappingStart tag)
    (hname : name.event = .scalar (untagged appKey style))
    (hevent : ∀ number, event.event ≠ .alias number) :
    (ofDocument document).toOption =
      (mapping document [some appKey] (event :: events)).toOption.bind fun read =>
        if read.2.head?.map (·.event) = some .mappingEnd ∧ document.ended ∧ document.isLast then
          some read.1
        else none := by
  have hcontent : content [] "struct ConfigFile" document.events = .ok (name :: event :: events) := by
    rw [hevents, content, hopening]
  have happ : appName document name = .ok (some appKey) := by
    rw [appName, fieldKey_of_scalar hname]
    rfl
  have hopen : name.event ≠ .mappingEnd := by simp [hname]
  rw [ofDocument, toOption_bind, toOption_mapError, toOption_bind, hcontent, toOption_ok,
    Option.bind_some, fields, if_neg hopen, happ, toOption_bind, toOption_ok, Option.bind_some,
    toOption_bind, mappingOrAlias_of_not_alias hevent, Option.bind_assoc]
  refine congrArg _ (funext fun read => ?_)
  rw [toOption_bind, toOption_lastField]
  by_cases hend : read.2.head?.map (·.event) = some .mappingEnd
  · rw [if_pos hend, Option.bind_some]
    by_cases hwhole : document.ended = true ∧ document.isLast = true
    · simp only [hend, hwhole]
      rfl
    · simp only [hend, hwhole]
      rfl
  · simp only [hend, false_and, if_false]
    rfl

/-- A mapping of entries gives the configuration of their draft. -/
theorem toOption_mapping_entries {opening last : PlacedEvent} {tag : Option Yaml.TagOctets}
    (hopening : opening.event = .mappingStart tag)
    (hevents : events.map (·.event) = (entries.flatMap entryScalars).map .scalar)
    (hlast : last.event = .mappingEnd) :
    (mapping document path (opening :: (events ++ last :: rest))).toOption =
      (entries.foldlM Draft.give? .empty).bind fun draft => draft.config?.map (·, rest) := by
  rw [toOption_mapping hopening, toOption_settings hevents, Option.bind_assoc]
  refine congrArg _ (funext fun draft => ?_)
  rw [settings_mappingEnd hlast, toOption_ok, Option.bind_some]

/-- A mapping that does not come to its end gives no configuration. -/
theorem mapping_of_cut {opening : PlacedEvent} {tag : Option Yaml.TagOctets}
    (hopening : opening.event = .mappingStart tag)
    (hevents : events.map (·.event) = (entries.flatMap entryScalars).map .scalar) :
    (mapping document path (opening :: events)).toOption = none := by
  have hcut : ∀ draft, (settings document path draft []).toOption = none := fun _ => rfl
  have hsettings : (settings document path .empty (events ++ [])).toOption = none := by
    rw [toOption_settings hevents]
    simp [hcut]
  rw [List.append_nil] at hsettings
  rw [toOption_mapping hopening, hsettings, Option.bind_none]

theorem foldlM_give?_of_not_short (hentry : entry ∈ entries) (hlong : ¬ IsShort entry.1.toList) :
    entries.foldlM Draft.give? .empty = none := by
  refine Draft.foldlM_give?_of_misfit Draft.holdsTexts_empty hentry ?_
  rintro ⟨setting, hkey, -⟩
  exact hlong (hkey ▸ setting.isShort_key)

/-- A document of entries gives the configuration that they tell. -/
theorem toOption_ofDocument_entries
    (hevents : document.events.map (·.event) =
      [.mappingStart none, .scalar (untagged appKey .plain)] ++ nestedNodes entries)
    (hwhole : (∀ entry ∈ entries, IsShort entry.1.toList) →
      document.ended = true ∧ document.isLast = true) :
    (ofDocument document).toOption =
      (entries.foldlM Draft.give? .empty).bind Draft.config? := by
  simp only [List.cons_append, List.nil_append, List.map_eq_cons_iff] at hevents
  obtain ⟨opening, _, hevents, hopening, name, nested, rfl, hname, hnested⟩ := hevents
  cases entries with
  | nil =>
      obtain ⟨value, _, rfl, hvalue, -⟩ := List.map_eq_cons_iff.mp hnested
      rw [toOption_ofDocument hevents hopening hname (by simp [hvalue]), mapping_of_scalar hvalue]
      rfl
  | cons entry entries =>
      by_cases hshort : IsShort entry.1.toList
      · rw [nestedNodes, if_pos hshort, List.map_eq_cons_iff] at hnested
        obtain ⟨start, _, rfl, hstart, hrest⟩ := hnested
        rw [toOption_ofDocument hevents hopening hname (by simp [hstart])]
        by_cases hall : knownEntries (entry :: entries) = entry :: entries
        · rw [if_pos hall, hall] at hrest
          obtain ⟨scalars, _, rfl, hscalars, hends⟩ := List.map_eq_append_iff.mp hrest
          simp only [List.map_eq_cons_iff, List.map_eq_nil_iff] at hends
          obtain ⟨inner, _, rfl, hinner, outer, _, rfl, houter, rfl⟩ := hends
          obtain ⟨hended, hlast⟩ := hwhole (knownEntries_eq_self.mp hall)
          rw [toOption_mapping_entries hstart hscalars hinner, Option.bind_assoc]
          refine congrArg _ (funext fun draft => ?_)
          cases draft.config? <;> simp [houter, hended, hlast]
        · -- The events stop before the first key that is too long, and no setting has such a key.
          rw [if_neg hall, List.append_nil] at hrest
          obtain ⟨other, hother, hlong⟩ : ∃ other ∈ entry :: entries, ¬ IsShort other.1.toList := by
            simpa only [not_forall, exists_prop] using mt knownEntries_eq_self.mpr hall
          rw [mapping_of_cut hstart hrest, foldlM_give?_of_not_short hother hlong]
          rfl
      · -- A first key that is too long opens no mapping: it is a value itself.
        rw [nestedNodes, if_neg hshort] at hnested
        obtain ⟨value, _, rfl, hvalue, -⟩ := List.map_eq_cons_iff.mp hnested
        rw [toOption_ofDocument hevents hopening hname (by simp [hvalue]),
          mapping_of_scalar hvalue, foldlM_give?_of_not_short List.mem_cons_self hshort]
        rfl

theorem toOption_ofText (text : String) : (Config.ofText text).toOption =
    (ofDocument (Document.ofText text)).toOption.bind fun config =>
      if config.testDir.isEmpty then none else some config := by
  unfold Config.ofText
  generalize ofDocument (Document.ofText text) = read
  cases read with
  | error problem => rfl
  | ok config =>
      rw [toOption_ok, Option.bind_some]
      dsimp only
      split <;> rfl

/-- The text of entries gives the configuration that they tell. -/
theorem toOption_ofText_entries {width : Nat} (hwidth : 0 < width)
    (hlines : ∀ entry ∈ entries, IsLineEntry entry) :
    (Config.ofText (nestedMapping width appKey entries)).toOption = ofEntries? entries := by
  have happ : IsShort appKey.toList := by decide
  obtain ⟨hevents, hwhole⟩ := document_nestedMapping (by decide) happ hwidth hlines
  have hread := toOption_ofDocument_entries hevents hwhole
  rw [toOption_ofText, hread, Option.bind_assoc]
  rfl

end Config

end OberonImports
