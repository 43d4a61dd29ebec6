import OberonImports.Config.Problem
import OberonImports.Config.Setting
import OberonImports.Yaml.Document

/-!
# Configurations from YAML texts

A configuration text is a mapping whose only key is `app`, and under it a mapping of settings. It is
read event by event, so that a problem of a node counts before anything that is wrong behind it. A
mapping may be missing where its text is empty.
-/

namespace OberonImports

open Yaml (Document PlacedEvent NodeEvent Scalar Mark)

namespace Config

abbrev Read := Except Problem

/-- What an event refers to: the event of its anchor for an alias, else the event itself. -/
def target (document : Document) (event : PlacedEvent) : PlacedEvent :=
  match event.event with
  | .alias number => (document.eventsAt number).headD ⟨.nothing, event.mark⟩
  | _ => event

/-- The problem of a node that is not what was expected. -/
def mismatch (path : KeyPath) (expected : String) (event : PlacedEvent) : Problem :=
  match event.event with
  | .scalar scalar =>
      match scalar.meaning with
      | .ok found => .placed path event.mark (.invalidType found expected)
      | .error tag => .placed path event.mark (.invalidValue tag.text tag.expected)
  | .sequenceStart _ => .placed path event.mark (.invalidType .sequence expected)
  | .mappingStart _ => .placed path event.mark (.invalidType .mapping expected)
  | _ => .unplaced .notYaml

/-! ## Values of settings -/

/-- A text, whatever its form would mean. -/
def text (path : KeyPath) (expected : String) (event : PlacedEvent) : Read String :=
  match event.event with
  | .scalar scalar => .ok scalar.text
  | _ => .error (mismatch path expected event)

def path (keyPath : KeyPath) (event : PlacedEvent) : Read Path := do
  return Path.ofText (← text keyPath "path string" event)

/-- Whether a scalar stands for no text: it is plain, and empty or a null. -/
def isAbsent (scalar : Scalar) : Read Bool :=
  if scalar.style ≠ .plain then .ok false
  else
    match scalar.tag with
    | none => .ok (scalar.text.isEmpty || Yaml.isNull scalar.text)
    | some tag =>
        if tag ≠ Yaml.coreTag "null" then .ok false
        else if Yaml.isNull scalar.text then .ok true
        else .error (.unplaced (.invalidValue scalar.text "null"))

/-- A text or none. -/
def optionalText (path : KeyPath) (event : PlacedEvent) : Read (Option String) := do
  let absent ← match event.event with
    | .scalar scalar => isAbsent scalar
    | _ => .ok false
  if absent then return none
  else return some (← text path "a string" event)

/-- The name that a local tag gives. It has to be UTF-8. If there is nothing behind the mark of the
tag, the mark is the name. -/
def variantTag? (tag : Option Yaml.TagOctets) : Option String :=
  match tag.bind Yaml.localPart? with
  | none => none
  | some [] => some "!"
  | some name => Text.Utf8.decode? name

def variant {α : Type} (all : List α) (word : α → String) (name : String) : Except Cause α :=
  match all.find? (word · = name) with
  | some value => .ok value
  | none => .error (.unknownVariant name (all.map word))

/-- An alternative that is given by a tag has nothing else to it. -/
def bareVariant (path : KeyPath) (event : PlacedEvent) : Read Unit :=
  match event.event with
  | .scalar scalar =>
      if scalar.style = .plain ∧ (scalar.text.isEmpty ∨ Yaml.isNull scalar.text) then .ok ()
      else .error (.placed path event.mark (.invalidValue scalar.text "null"))
  | _ => .error (mismatch path "unit" event)

/-- One of several alternatives, given by its word or by a tag. -/
def choice {α : Type} (all : List α) (word : α → String) (path : KeyPath) (event : PlacedEvent) :
    Read α :=
  let tagged (name : String) : Read α := do
    let value ← (variant all word name).mapError .unplaced
    bareVariant path event
    return value
  match event.event with
  | .scalar scalar =>
      match variantTag? scalar.tag with
      | some name => tagged name
      | none => (variant all word scalar.text).mapError (.placed path event.mark)
  | .sequenceStart tag | .mappingStart tag =>
      match variantTag? tag with
      | some name => tagged name
      | none => .error (mismatch path "a YAML tag starting with '!'" event)
  | _ => .error (.unplaced .notYaml)

/-- The draft with one more setting. -/
def assign (draft : Draft) (path : KeyPath) (event : PlacedEvent) : Setting → Read Draft
  | .testDir => return { draft with testDir := some (← Config.path path event) }
  | .outputTxt => return { draft with outputTxt := some (← Config.path path event) }
  | .outputDot => return { draft with outputDot := some (← Config.path path event) }
  | .layout => return { draft with layout := some (← choice Layout.all Layout.word path event) }
  | .rankdir => return { draft with rankdir := some (← optionalText path event) }
  | .size => return { draft with size := some (← optionalText path event) }
  | .unresolved =>
      return { draft with
        unresolved := some (← choice UnresolvedPolicy.all UnresolvedPolicy.word path event) }
  | .duplicates =>
      return { draft with
        duplicates := some (← choice DuplicatePolicy.all DuplicatePolicy.word path event) }
  | .onError =>
      return { draft with onError := some (← choice ErrorPolicy.all ErrorPolicy.word path event) }

/-- The draft with the setting that an event gives. If the event is an alias, what is wrong with the
value lies no farther out than the alias. -/
def assignFrom (document : Document) (draft : Draft) (path : KeyPath) (event : PlacedEvent)
    (setting : Setting) : Read Draft :=
  let read := assign draft path (target document event) setting
  match event.event with
  | .alias _ => read.mapError (.within path event.mark)
  | _ => read

/-! ## Mappings -/

/-- The key that an event gives, and its name in a path, which an alias does not have. -/
def fieldKey (document : Document) (path : KeyPath) (event : PlacedEvent) :
    Read (String × Option String) := do
  let key ← text path "field identifier" (target document event)
  match event.event with
  | .scalar _ => return (key, some key)
  | _ => return (key, none)

/-- The events of the content of a mapping, which may be empty, together with the place of the
mapping. -/
def content (path : KeyPath) (expected : String) : List PlacedEvent → Read (List PlacedEvent)
  | [] => .error (.unplaced .notYaml)
  | event :: events =>
      match event.event with
      | .mappingStart _ => .ok events
      | .nothing => .ok (⟨.mappingEnd, event.mark⟩ :: events)
      | .scalar scalar =>
          if scalar.text.isEmpty ∧ scalar.style = .plain then
            .ok (⟨.mappingEnd, event.mark⟩ :: events)
          else .error (mismatch path expected event)
      | _ => .error (mismatch path expected event)

/-- Read settings up to the end of their mapping. The result has the events behind it. -/
def settings (document : Document) (path : KeyPath) (draft : Draft) :
    List PlacedEvent → Read (Draft × List PlacedEvent)
  | [] => .error (.unplaced .notYaml)
  | event :: events =>
      if event.event = .mappingEnd then .ok (draft, events)
      else do
        let (key, name) ← fieldKey document path event
        match Setting.ofKey? key with
        | none =>
            .error (.placed path (target document event).mark
              (.unknownField key (Setting.all.map Setting.key)))
        | some setting =>
            if draft.has setting then .error (.unplaced (.duplicateField key))
            else
              match events with
              | [] => .error (.unplaced .notYaml)
              | value :: events =>
                  let draft ← assignFrom document draft (path ++ [name]) value setting
                  settings document path draft events

/-- The configuration that the mapping at the front of some events gives, and the events behind
it. -/
def mapping (document : Document) (path : KeyPath) (events : List PlacedEvent) :
    Read (Config × List PlacedEvent) := do
  let mark := (events.head?.map (·.mark)).getD .start
  let read : Read (Config × List PlacedEvent) := do
    let (draft, events) ← settings document path .empty
      (← content path "struct AppConfig" events)
    match draft.config? with
    | some config => return (config, events)
    | none => .error (.unplaced (.missingField Setting.testDir.key))
  read.mapError (.within path mark)

/-- The same for events that start with an alias: its mapping is read elsewhere. -/
def mappingOrAlias (document : Document) (path : KeyPath) (events : List PlacedEvent) :
    Read (Config × List PlacedEvent) :=
  match events with
  | ⟨.alias number, _⟩ :: events =>
      (mapping document path (document.eventsAt number)).map fun (config, _) => (config, events)
  | _ => mapping document path events

def appKey : String := "app"

/-- Check that the key of a field is the only one that there is, and give its name in a path. -/
def appName (document : Document) (event : PlacedEvent) : Read (Option String) := do
  let (key, name) ← fieldKey document [] event
  if key = appKey then return name
  else .error (.placed [] (target document event).mark (.unknownField key [appKey]))

/-- Read the end of a configuration text, whose field has been read. -/
def lastField (document : Document) : List PlacedEvent → Read Unit
  | [] => .error (.unplaced .notYaml)
  | event :: _ =>
      if event.event = .mappingEnd then .ok ()
      else do
        let _ ← appName document event
        .error (.unplaced (.duplicateField appKey))

/-- Read the fields of a configuration text. -/
def fields (document : Document) : List PlacedEvent → Read Config
  | [] => .error (.unplaced .notYaml)
  | event :: events =>
      if event.event = .mappingEnd then .error (.unplaced (.missingField appKey))
      else do
        let name ← appName document event
        let (config, events) ← mappingOrAlias document [name] events
        lastField document events
        return config

/-- The configuration that a document gives. -/
def ofDocument (document : Document) : Read Config := do
  let events := document.events
  let mark := (events.head?.map (·.mark)).getD .start
  let read : Read Config := content [] "struct ConfigFile" events >>= fields document
  let config ← read.mapError (.within [] mark)
  if document.ended ∧ document.isLast then return config
  else .error (.unplaced .notYaml)

end Config

/-- Why a text gives no configuration. -/
inductive ConfigTextError where
  | problem (cause : Problem)
  | emptyTestDir
  deriving Repr, DecidableEq

def ConfigTextError.chain : ConfigTextError → List String
  | .problem cause => ["Failed to parse YAML configuration", cause.message]
  | .emptyTestDir => ["app.test-dir must not be empty"]

/-- The configuration that a text gives. The place of the module files must not be empty. -/
def Config.ofText (text : String) : Except ConfigTextError Config :=
  match Config.ofDocument (Yaml.Document.ofText text) with
  | .error problem => .error (.problem problem)
  | .ok config => if config.testDir.isEmpty then .error .emptyTestDir else .ok config

end OberonImports
