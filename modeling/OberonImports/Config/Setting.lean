import OberonImports.Config.Basic

/-!
# Settings

A configuration text gives its settings by key, each at most once and in any order. A draft holds
the settings given so far.
-/

namespace OberonImports

/-- A setting of a configuration. -/
inductive Setting where
  | testDir
  | outputTxt
  | outputDot
  | layout
  | rankdir
  | size
  | unresolved
  | duplicates
  | onError
  deriving Repr, DecidableEq

namespace Setting

/-- All settings, in the order in which messages list them. -/
def all : List Setting :=
  [testDir, outputTxt, outputDot, layout, rankdir, size, unresolved, duplicates, onError]

def key : Setting → String
  | testDir => "test-dir"
  | outputTxt => "output-txt"
  | outputDot => "output-dot"
  | layout => "layout"
  | rankdir => "rankdir"
  | size => "size"
  | unresolved => "unresolved"
  | duplicates => "duplicates"
  | onError => "on-error"

def ofKey? (key : String) : Option Setting := all.find? (·.key = key)

end Setting

/-- The settings given so far. A direction or a size may be given as none. -/
structure Draft where
  testDir : Option Path
  outputTxt : Option Path
  outputDot : Option Path
  layout : Option Layout
  rankdir : Option (Option String)
  size : Option (Option String)
  unresolved : Option UnresolvedPolicy
  duplicates : Option DuplicatePolicy
  onError : Option ErrorPolicy
  deriving Repr, DecidableEq

namespace Draft

def empty : Draft := ⟨none, none, none, none, none, none, none, none, none⟩

def has (draft : Draft) : Setting → Bool
  | .testDir => draft.testDir.isSome
  | .outputTxt => draft.outputTxt.isSome
  | .outputDot => draft.outputDot.isSome
  | .layout => draft.layout.isSome
  | .rankdir => draft.rankdir.isSome
  | .size => draft.size.isSome
  | .unresolved => draft.unresolved.isSome
  | .duplicates => draft.duplicates.isSome
  | .onError => draft.onError.isSome

/-- The configuration of a draft, with defaults for what is not given. The place of the module files
has to be given. -/
def config? (draft : Draft) : Option Config :=
  draft.testDir.map fun testDir =>
    let base := Config.ofTestDir testDir
    { base with
      outputTxt := draft.outputTxt.getD base.outputTxt
      outputDot := draft.outputDot.getD base.outputDot
      layout := draft.layout.getD base.layout
      rankdir := draft.rankdir.getD base.rankdir
      size := draft.size.getD base.size
      unresolved := draft.unresolved.getD base.unresolved
      duplicates := draft.duplicates.getD base.duplicates
      onError := draft.onError.getD base.onError }

end Draft

end OberonImports
