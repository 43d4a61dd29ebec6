/-!
# Policies

The choices that a configuration makes. Each has one word per alternative, which is how a
configuration file writes it.
-/

namespace OberonImports

/-- How a graph is laid out: nodes of one rank side by side, or nodes clustered by first letter. -/
inductive Layout where
  | rank
  | alphabetic
  deriving Repr, DecidableEq, Inhabited

/-- What becomes of an import of a module that is not declared: it is left out of the graph, or it
leads to a placeholder. -/
inductive UnresolvedPolicy where
  | drop
  | placeholder
  deriving Repr, DecidableEq, Inhabited

/-- What becomes of a second declaration of a module: it is refused, it replaces the first, or its
new imports are added to the first. -/
inductive DuplicatePolicy where
  | reject
  | overwrite
  | merge
  deriving Repr, DecidableEq, Inhabited

/-- What becomes of a scan at a file without a module: it stops, or it records the file and goes
on. -/
inductive ErrorPolicy where
  | abort
  | collect
  deriving Repr, DecidableEq, Inhabited

namespace Layout

def word : Layout → String
  | rank => "rank"
  | alphabetic => "alphabetic"

/-- All layouts, in the order in which messages list them. -/
def all : List Layout := [rank, alphabetic]

end Layout

namespace UnresolvedPolicy

def word : UnresolvedPolicy → String
  | drop => "omit"
  | placeholder => "placeholder"

def all : List UnresolvedPolicy := [drop, placeholder]

end UnresolvedPolicy

namespace DuplicatePolicy

def word : DuplicatePolicy → String
  | reject => "reject"
  | overwrite => "overwrite"
  | merge => "merge"

def all : List DuplicatePolicy := [reject, overwrite, merge]

end DuplicatePolicy

namespace ErrorPolicy

def word : ErrorPolicy → String
  | abort => "abort"
  | collect => "collect"

def all : List ErrorPolicy := [abort, collect]

end ErrorPolicy

end OberonImports
