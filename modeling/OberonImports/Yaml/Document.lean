import OberonImports.Yaml.Event.Stream
import OberonImports.Yaml.Token.Stream

/-!
# YAML documents

The first document of a text as the list of its node events. An alias refers to an event by number,
and several anchors may share a number, of which the last one counts. A text that is YAML only at
its front still has a first document, which then may lack its end.
-/

namespace OberonImports.Yaml

/-- An event of a node of a document. A text without documents has nothing as its only node. -/
inductive NodeEvent where
  | alias (number : Nat)
  | scalar (scalar : Scalar)
  | sequenceStart (tag : Option TagOctets)
  | sequenceEnd
  | mappingStart (tag : Option TagOctets)
  | mappingEnd
  | nothing
  deriving Repr, DecidableEq

/-- A node event with the place where it starts. -/
structure PlacedEvent where
  event : NodeEvent
  mark : Mark
  deriving Repr, DecidableEq

/-- The first document of a text: its events, the positions of anchored ones by number, whether the
document came to its end, and whether nothing follows it. -/
structure Document where
  events : List PlacedEvent
  positions : List (Nat × Nat)
  ended : Bool
  isLast : Bool
  deriving Repr, DecidableEq

namespace Document

/-- The events from that of a number on. -/
def eventsAt (document : Document) (number : Nat) : List PlacedEvent :=
  match document.positions.lookup number with
  | none => []
  | some position => document.events.drop position

/-- A document that is being read: its events so far, last first, the numbers of the names of
anchors, and the positions of the numbers, newest first. -/
structure Reading where
  events : List PlacedEvent
  numbers : List (String × Nat)
  positions : List (Nat × Nat)

namespace Reading

def start : Reading := ⟨[], [], []⟩

/-- The document read so far. -/
def document (reading : Reading) (ended isLast : Bool) : Document :=
  ⟨reading.events.reverse, reading.positions, ended, isLast⟩

def add (reading : Reading) (event : NodeEvent) (mark : Mark) : Reading :=
  { reading with events := ⟨event, mark⟩ :: reading.events }

/-- Give the next event an anchor, if it has one. The number of an anchor is that of the names known
before it. -/
def noteAnchor (reading : Reading) : Option String → Reading
  | none => reading
  | some name =>
      let number := reading.numbers.length
      { reading with
        numbers := (name, number) :: reading.numbers.filter (·.1 ≠ name)
        positions := (number, reading.events.length) :: reading.positions }

end Reading

/-- Read on in the first document. -/
def read (reading : Reading) : List Event → Document
  | [] => reading.document false false
  | ⟨kind, mark⟩ :: events =>
      match kind with
      | .streamStart | .documentStart => read reading events
      | .streamEnd => (reading.add .nothing mark).document true true
      | .documentEnd =>
          reading.document true (events.head?.any fun event => event.kind = .streamEnd)
      | .alias name =>
          match reading.numbers.lookup name with
          | none => reading.document false false
          | some number => read (reading.add (.alias number) mark) events
      | .scalar anchor scalar =>
          read ((reading.noteAnchor anchor).add (.scalar scalar) mark) events
      | .sequenceStart anchor tag =>
          read ((reading.noteAnchor anchor).add (.sequenceStart tag) mark) events
      | .sequenceEnd => read (reading.add .sequenceEnd mark) events
      | .mappingStart anchor tag =>
          read ((reading.noteAnchor anchor).add (.mappingStart tag) mark) events
      | .mappingEnd => read (reading.add .mappingEnd mark) events

def ofText (text : String) : Document :=
  read .start (Yaml.events (Yaml.tokens text.toList))

end Document

end OberonImports.Yaml
