import OberonImports.Text.Utf8
import OberonImports.Yaml.Event.Basic

/-!
# The events of tokens

Events are told one by one by a machine that reads tokens. Its state says what is expected next, and
a stack says what is expected behind the nodes that are open.
-/

namespace OberonImports.Yaml

/-- What is expected next. -/
inductive Expectation where
  | stream
  | firstDocument
  | document
  | documentContent
  | documentEnd
  | documentNode
  | blockSequenceFirst
  | blockSequenceEntry
  | indentlessEntry
  | blockMappingFirst
  | blockMappingKey
  | blockMappingValue
  | flowSequenceFirst
  | flowSequenceEntry
  | flowPairKey
  | flowPairValue
  | flowPairEnd
  | flowMappingFirst
  | flowMappingKey
  | flowMappingValue
  | flowMappingEmptyValue
  | nothing
  deriving Repr, DecidableEq

/-- The state between two events: what is expected next and, innermost first, behind the open nodes,
the meaning of the handles of tags, and the tokens that are still to be read. -/
structure Assembler where
  expectation : Expectation
  pending : List Expectation
  handles : List (String × TagOctets)
  tokens : List Token
  deriving Repr, DecidableEq

namespace Assembler

def start (tokens : List Token) : Assembler := ⟨.stream, [], [], tokens⟩

/-- What a step yields: an event and the state behind it, unless the tokens are wrong or missing. -/
abbrev Step := Option (Event × Assembler)

def peek? (assembler : Assembler) : Option Token := assembler.tokens.head?

def kind? (assembler : Assembler) : Option TokenKind := assembler.peek?.map (·.kind)

def advance (assembler : Assembler) : Assembler :=
  { assembler with tokens := assembler.tokens.tail }

def expecting (assembler : Assembler) (expectation : Expectation) : Assembler :=
  { assembler with expectation }

/-- Expect something behind the next node. -/
def pushing (assembler : Assembler) (expectation : Expectation) : Assembler :=
  { assembler with pending := expectation :: assembler.pending }

/-- Expect next what was put off. -/
def popping (assembler : Assembler) : Assembler :=
  { assembler with
    expectation := assembler.pending.headD .nothing
    pending := assembler.pending.tail }

def tell (assembler : Assembler) (kind : EventKind) (mark : Mark) : Step :=
  some (⟨kind, mark⟩, assembler)

/-- Tell an empty scalar. -/
def tellEmpty (assembler : Assembler) (mark : Mark) : Step :=
  assembler.tell (.scalar none ⟨"", none, .plain⟩) mark

/-! ## Nodes -/

/-- The properties of a node: its anchor, its tag, and the place where they start. -/
structure Properties where
  anchor : Option String
  tag : Option (String × TagOctets)
  mark : Mark

def anchor (assembler : Assembler) : Option String × Assembler :=
  match assembler.kind? with
  | some (.anchor name) => (some name, assembler.advance)
  | _ => (none, assembler)

def tag (assembler : Assembler) : Option (String × TagOctets) × Assembler :=
  match assembler.kind? with
  | some (.tag handle suffix) => (some (handle, suffix), assembler.advance)
  | _ => (none, assembler)

/-- Read an anchor and a tag in either order. -/
def properties (assembler : Assembler) (mark : Mark) : Properties × Assembler :=
  match assembler.anchor with
  | (some name, assembler) =>
      let (tag, assembler) := assembler.tag
      (⟨some name, tag, mark⟩, assembler)
  | (none, assembler) =>
      let (tag, assembler) := assembler.tag
      match tag with
      | none => (⟨none, none, mark⟩, assembler)
      | some tag =>
          let (anchor, assembler) := assembler.anchor
          (⟨anchor, some tag, mark⟩, assembler)

/-- The full form of a tag. A handle must have a meaning, but an empty one means nothing. -/
def fullTag? (assembler : Assembler) : Option (String × TagOctets) → Option (Option TagOctets)
  | none => some none
  | some ("", suffix) => some (some suffix)
  | some (handle, suffix) => (assembler.handles.lookup handle).map fun stem => some (stem ++ suffix)

/-- Tell a node. Block collections are nodes only where `inBlock` holds, and items without
indentation only where `indentless` holds. -/
def node (assembler : Assembler) (inBlock indentless : Bool) : Step := do
  let first ← assembler.peek?
  match first.kind with
  | .alias name => assembler.advance.popping.tell (.alias name) first.start
  | _ =>
      let (properties, assembler) := assembler.properties first.start
      let tag ← assembler.fullTag? properties.tag
      let token ← assembler.peek?
      let anchor := properties.anchor
      let mark := properties.mark
      match token.kind with
      | .blockEntry =>
          if indentless then
            (assembler.expecting .indentlessEntry).tell (.sequenceStart anchor tag) mark
          else emptyNode assembler anchor tag mark
      | .scalar text style =>
          assembler.advance.popping.tell (.scalar anchor ⟨text, tag, style⟩) mark
      | .flowSequenceStart =>
          (assembler.expecting .flowSequenceFirst).tell (.sequenceStart anchor tag) mark
      | .flowMappingStart =>
          (assembler.expecting .flowMappingFirst).tell (.mappingStart anchor tag) mark
      | .blockSequenceStart =>
          if inBlock then
            (assembler.expecting .blockSequenceFirst).tell (.sequenceStart anchor tag) mark
          else emptyNode assembler anchor tag mark
      | .blockMappingStart =>
          if inBlock then
            (assembler.expecting .blockMappingFirst).tell (.mappingStart anchor tag) mark
          else emptyNode assembler anchor tag mark
      | _ => emptyNode assembler anchor tag mark
where
  /-- A node of which there is nothing but properties, of which there must be one. -/
  emptyNode (assembler : Assembler) (anchor : Option String) (tag : Option TagOctets)
      (mark : Mark) : Step :=
    if anchor = none ∧ tag = none then none
    else assembler.popping.tell (.scalar anchor ⟨"", tag, .plain⟩) mark

/-- Tell a node, or an empty scalar if the next token is one of those that may follow it. Behind it
`behind` is expected. -/
def nodeOrEmpty (assembler : Assembler) (inBlock indentless : Bool) (behind : Expectation)
    (followers : List TokenKind) (emptyMark : Mark) : Step := do
  let kind ← assembler.kind?
  if kind ∈ followers then (assembler.expecting behind).tellEmpty emptyMark
  else (assembler.pushing behind).node inBlock indentless

/-! ## Documents -/

/-- Read directives. There may be one version, which must be 1.1 or 1.2, and one meaning for each
handle. -/
def directives? (handles : List (String × TagOctets)) (versioned : Bool) :
    List Token → Option (List (String × TagOctets) × List Token)
  | ⟨.versionDirective major minor, _, _⟩ :: tokens =>
      if versioned ∨ major ≠ 1 ∨ (minor ≠ 1 ∧ minor ≠ 2) then none
      else directives? handles true tokens
  | ⟨.tagDirective handle stem, _, _⟩ :: tokens =>
      if (handles.lookup handle).isSome then none
      else directives? (handles ++ [(handle, stem)]) versioned tokens
  | tokens => some (handles, tokens)

/-- The meanings of the handles that need no directive. -/
def standardHandles : List (String × TagOctets) :=
  [("!", Text.Utf8.encode "!"), ("!!", Text.Utf8.encode "tag:yaml.org,2002:")]

/-- Whether a token starts or ends a document or the stream. -/
def isBoundary : TokenKind → Bool
  | .versionDirective .. | .tagDirective .. | .documentStart | .documentEnd | .streamEnd => true
  | _ => false

/-- Tell the start of a document, or the end of the stream. Only the first document may start
without a sign, and signs for the end of a document may precede all others. -/
def documentStart (assembler : Assembler) (first : Bool) : Step := do
  let assembler :=
    if first then assembler
    else { assembler with tokens := assembler.tokens.dropWhile (·.kind = .documentEnd) }
  let token ← assembler.peek?
  if first ∧ (!isBoundary token.kind ∨ token.kind = .documentEnd) then
    (({ assembler with handles := standardHandles }.pushing .documentEnd).expecting
      .documentNode).tell .documentStart token.start
  else if token.kind = .streamEnd then
    (assembler.advance.expecting .nothing).tell .streamEnd token.start
  else
    let (handles, tokens) ← directives? [] false assembler.tokens
    let assembler := { assembler with handles := handles ++ standardHandles, tokens }
    if assembler.kind? = some .documentStart then
      ((assembler.advance.pushing .documentEnd).expecting .documentContent).tell .documentStart
        token.start
    else none

/-- Tell the node of a document that started with its sign. -/
def documentContent (assembler : Assembler) : Step := do
  let token ← assembler.peek?
  if isBoundary token.kind then assembler.popping.tellEmpty token.start
  else assembler.node true false

def documentEnd (assembler : Assembler) : Step := do
  let token ← assembler.peek?
  let assembler := if token.kind = .documentEnd then assembler.advance else assembler
  ({ assembler with handles := [] }.expecting .document).tell .documentEnd token.start

/-! ## Block collections -/

/-- Tell an item of a block sequence, or its end. -/
def blockSequenceEntry (assembler : Assembler) : Step := do
  let token ← assembler.peek?
  match token.kind with
  | .blockEntry =>
      assembler.advance.nodeOrEmpty true false .blockSequenceEntry [.blockEntry, .blockEnd]
        token.stop
  | .blockEnd => assembler.advance.popping.tell .sequenceEnd token.start
  | _ => none

/-- Tell an item of a sequence without indentation, or its end. -/
def indentlessEntry (assembler : Assembler) : Step := do
  let token ← assembler.peek?
  match token.kind with
  | .blockEntry =>
      assembler.advance.nodeOrEmpty true false .indentlessEntry
        [.blockEntry, .key, .value, .blockEnd] token.stop
  | _ => assembler.popping.tell .sequenceEnd token.start

/-- Tell a key of a block mapping, or its end. -/
def blockMappingKey (assembler : Assembler) : Step := do
  let token ← assembler.peek?
  match token.kind with
  | .key =>
      assembler.advance.nodeOrEmpty true true .blockMappingValue [.key, .value, .blockEnd]
        token.stop
  | .blockEnd => assembler.advance.popping.tell .mappingEnd token.start
  | _ => none

def blockMappingValue (assembler : Assembler) : Step := do
  let token ← assembler.peek?
  match token.kind with
  | .value =>
      assembler.advance.nodeOrEmpty true true .blockMappingKey [.key, .value, .blockEnd] token.stop
  | _ => (assembler.expecting .blockMappingKey).tellEmpty token.start

/-! ## Flow collections -/

/-- Read the comma in front of an item, unless the item is the first or the collection ends. -/
def comma? (assembler : Assembler) (first : Bool) (last : TokenKind) : Option Assembler := do
  let kind ← assembler.kind?
  if first ∨ kind = last then some assembler
  else if kind = .flowEntry then some assembler.advance
  else none

/-- Tell an item of a flow sequence, or its end. An item may be a pair, which is a mapping. -/
def flowSequenceEntry (assembler : Assembler) (first : Bool) : Step := do
  let assembler ← assembler.comma? first .flowSequenceEnd
  let token ← assembler.peek?
  match token.kind with
  | .key => (assembler.advance.expecting .flowPairKey).tell (.mappingStart none none) token.start
  | .flowSequenceEnd => assembler.advance.popping.tell .sequenceEnd token.start
  | _ => (assembler.pushing .flowSequenceEntry).node false false

/-- Tell the key of a pair. A key that is missing takes the token behind it with it. -/
def flowPairKey (assembler : Assembler) : Step := do
  let token ← assembler.peek?
  if token.kind ∈ [TokenKind.value, .flowEntry, .flowSequenceEnd] then
    (assembler.advance.expecting .flowPairValue).tellEmpty token.stop
  else (assembler.pushing .flowPairValue).node false false

def flowPairValue (assembler : Assembler) : Step := do
  let token ← assembler.peek?
  match token.kind with
  | .value => do
      let next ← assembler.advance.peek?
      assembler.advance.nodeOrEmpty false false .flowPairEnd [.flowEntry, .flowSequenceEnd]
        next.start
  | _ => (assembler.expecting .flowPairEnd).tellEmpty token.start

def flowPairEnd (assembler : Assembler) : Step := do
  let token ← assembler.peek?
  (assembler.expecting .flowSequenceEntry).tell .mappingEnd token.start

/-- Tell a key of a flow mapping, or its end. A key without a sign and without a colon has an empty
value. -/
def flowMappingKey (assembler : Assembler) (first : Bool) : Step := do
  let assembler ← assembler.comma? first .flowMappingEnd
  let token ← assembler.peek?
  match token.kind with
  | .key => do
      let next ← assembler.advance.peek?
      assembler.advance.nodeOrEmpty false false .flowMappingValue
        [.value, .flowEntry, .flowMappingEnd] next.start
  | .flowMappingEnd => assembler.advance.popping.tell .mappingEnd token.start
  | _ => (assembler.pushing .flowMappingEmptyValue).node false false

/-- Tell a value of a flow mapping. -/
def flowMappingValue (assembler : Assembler) : Step := do
  let token ← assembler.peek?
  match token.kind with
  | .value => do
      let next ← assembler.advance.peek?
      assembler.advance.nodeOrEmpty false false .flowMappingKey [.flowEntry, .flowMappingEnd]
        next.start
  | _ => (assembler.expecting .flowMappingKey).tellEmpty token.start

/-- Tell the value of a key that has none. -/
def flowMappingEmptyValue (assembler : Assembler) : Step := do
  let token ← assembler.peek?
  (assembler.expecting .flowMappingKey).tellEmpty token.start

/-! ## All events -/

def step (assembler : Assembler) : Step :=
  match assembler.expectation with
  | .stream => do
      let token ← assembler.peek?
      (assembler.advance.expecting .firstDocument).tell .streamStart token.start
  | .firstDocument => assembler.documentStart true
  | .document => assembler.documentStart false
  | .documentContent => assembler.documentContent
  | .documentEnd => assembler.documentEnd
  | .documentNode => assembler.node true false
  | .blockSequenceFirst => assembler.advance.blockSequenceEntry
  | .blockSequenceEntry => assembler.blockSequenceEntry
  | .indentlessEntry => assembler.indentlessEntry
  | .blockMappingFirst => assembler.advance.blockMappingKey
  | .blockMappingKey => assembler.blockMappingKey
  | .blockMappingValue => assembler.blockMappingValue
  | .flowSequenceFirst => assembler.advance.flowSequenceEntry true
  | .flowSequenceEntry => assembler.flowSequenceEntry false
  | .flowPairKey => assembler.flowPairKey
  | .flowPairValue => assembler.flowPairValue
  | .flowPairEnd => assembler.flowPairEnd
  | .flowMappingFirst => assembler.advance.flowMappingKey true
  | .flowMappingKey => assembler.flowMappingKey false
  | .flowMappingValue => assembler.flowMappingValue
  | .flowMappingEmptyValue => assembler.flowMappingEmptyValue
  | .nothing => none

/-- Tell events, at most so many. -/
def run : Nat → Assembler → List Event
  | 0, _ => []
  | fuel + 1, assembler =>
      match assembler.step with
      | none => []
      | some (event, assembler) => event :: run fuel assembler

end Assembler

/-- The events of tokens, up to the first token that is out of place. Between two tokens that are
read there are at most five events, so that the fuel is enough. -/
def events (tokens : List Token) : List Event :=
  Assembler.run (6 * tokens.length + 12) (.start tokens)

end OberonImports.Yaml
