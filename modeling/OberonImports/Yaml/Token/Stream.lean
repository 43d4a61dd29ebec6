import OberonImports.Yaml.Scalar.Block
import OberonImports.Yaml.Scalar.Plain
import OberonImports.Yaml.Token.Property

/-!
# The tokens of a text

Tokens are fetched from left to right. What makes this more than cutting a text into words:

* Outside of brackets, indentation opens and closes block collections. The column of the innermost
  open one is kept, counted from 1, so that 0 means that none is open.
* A key may come without a sign of its own, and is known only from the colon behind it. Until then
  the place of its first token is kept for each level of brackets. A colon puts the missing tokens
  there. So tokens are released only up to the first such place. A key ends within its line and
  within 1024 octets.
-/

namespace OberonImports.Yaml

/-- A place at which a key may have started: the number of its first token, where that stands, and
whether it must turn out to be a key. -/
structure KeyStart where
  number : Nat
  mark : Mark
  required : Bool
  deriving Repr, DecidableEq

/-- The state between two tokens. The tokens that are not yet released are in `queue`, oldest first,
and `released` is the number of the others. Of `levels` and `keys` the innermost comes first. -/
structure Scanner where
  cursor : Cursor
  flowDepth : Nat
  level : Nat
  levels : List Nat
  keyAllowed : Bool
  keys : List (Option KeyStart)
  queue : List Token
  released : Nat
  deriving Repr, DecidableEq

namespace Scanner

def start (text : List Char) : Scanner where
  cursor := ⟨text, .start⟩
  flowDepth := 0
  level := 0
  levels := []
  keyAllowed := true
  keys := [none]
  queue := [⟨.streamStart, .start, .start⟩]
  released := 0

/-- Whether the text stands inside brackets. -/
def inFlow (scanner : Scanner) : Bool := scanner.flowDepth ≠ 0

def mark (scanner : Scanner) : Mark := scanner.cursor.mark

/-- Append a token and go on behind it. -/
def emit (scanner : Scanner) (kind : TokenKind) (rest : Cursor) : Scanner :=
  { scanner with
    cursor := rest
    queue := scanner.queue ++ [⟨kind, scanner.mark, rest.mark⟩] }

/-- Append a token for the next characters, and allow or forbid a key behind it. -/
def emitSign (scanner : Scanner) (kind : TokenKind) (length : Nat) (keyAllowed : Bool) : Scanner :=
  { scanner.emit kind (scanner.cursor.skip length) with keyAllowed }

/-- Insert a token without characters before the token of a number. -/
def insertAt (scanner : Scanner) (number : Nat) (kind : TokenKind) (mark : Mark) : Scanner :=
  let (before, after) := scanner.queue.splitAt (number - scanner.released)
  { scanner with queue := before ++ ⟨kind, mark, mark⟩ :: after }

def nextNumber (scanner : Scanner) : Nat := scanner.released + scanner.queue.length

/-! ## Keys -/

/-- Whether the text has gone past what could belong to a key. -/
def isStale (scanner : Scanner) (key : KeyStart) : Bool :=
  key.mark.line < scanner.mark.line || key.mark.index + 1024 < scanner.mark.index

/-- Give up the key starts that the text has gone past. None of them must be required. -/
def dropStale? (scanner : Scanner) : Option Scanner :=
  if scanner.keys.all fun key => key.all fun key => !scanner.isStale key then some scanner
  else if scanner.keys.any fun key => key.any fun key => scanner.isStale key && key.required then
    none
  else
    some { scanner with
      keys := scanner.keys.map fun key => key.filter fun key => !scanner.isStale key }

/-- Replace the key start of the innermost level. -/
def setKey (scanner : Scanner) (key : Option KeyStart) : Scanner :=
  { scanner with keys := key :: scanner.keys.tail }

def key? (scanner : Scanner) : Option KeyStart := scanner.keys.head?.join

/-- Give up the key start of the innermost level. It must not be required. -/
def dropKey? (scanner : Scanner) : Option Scanner :=
  if scanner.key?.any (·.required) then none else some (scanner.setKey none)

/-- Note that a key may start here, if one is allowed. In a block mapping, what starts at the column
of the mapping must be a key. -/
def noteKey? (scanner : Scanner) : Option Scanner :=
  if scanner.keyAllowed then do
    let required := !scanner.inFlow && scanner.level = scanner.mark.column + 1
    let key : KeyStart := ⟨scanner.nextNumber, scanner.mark, required⟩
    let scanner ← scanner.dropKey?
    some (scanner.setKey (some key))
  else some scanner

/-! ## Indentation -/

/-- Open a block collection at a column if none is open there, with its token before that of the
given number. -/
def openBlock (scanner : Scanner) (number : Nat) (kind : TokenKind) (mark : Mark) : Scanner :=
  if scanner.inFlow || mark.column < scanner.level then scanner
  else
    { scanner.insertAt number kind mark with
      level := mark.column + 1
      levels := scanner.level :: scanner.levels }

/-- The tokens that close the open block collections right of a column counted from 1, and those
that stay open. -/
def closing (mark : Mark) (column level : Nat) : List Nat → List Token × Nat × List Nat
  | [] => ([], level, [])
  | outer :: levels =>
      if column < level then
        let (tokens, rest) := closing mark column outer levels
        (⟨.blockEnd, mark, mark⟩ :: tokens, rest)
      else ([], level, outer :: levels)

/-- Close the open block collections right of a column counted from 1. -/
def closeBlocks (scanner : Scanner) (column : Nat) : Scanner :=
  if scanner.inFlow then scanner
  else
    let (tokens, level, levels) := closing scanner.mark column scanner.level scanner.levels
    { scanner with queue := scanner.queue ++ tokens, level, levels }

/-! ## Between tokens -/

/-- Go past blanks, comments, line breaks and byte order marks at the front of lines. Tabs count as
blanks where no key may start. Behind a line break outside of brackets, a key may start. -/
def skipBetween (inFlow keyAllowed inComment : Bool) (mark : Mark) : List Char → Cursor × Bool
  | [] => (⟨[], mark⟩, keyAllowed)
  | c :: text =>
      if isBreak c then skipBetween inFlow (keyAllowed || !inFlow) false (mark.next c) text
      else if inComment || c = ' ' || ((inFlow || !keyAllowed) && c = '\t')
          || (mark.column = 0 && c = '\ufeff') then
        skipBetween inFlow keyAllowed inComment (mark.next c) text
      else if c = '#' then skipBetween inFlow keyAllowed true (mark.next c) text
      else (⟨c :: text, mark⟩, keyAllowed)

def toNextToken (scanner : Scanner) : Scanner :=
  let (cursor, keyAllowed) :=
    skipBetween scanner.inFlow scanner.keyAllowed false scanner.mark scanner.cursor.text
  { scanner with cursor, keyAllowed }

/-! ## Tokens -/

/-- The end of the text. It is the front of a line of its own. -/
def fetchEnd? (scanner : Scanner) : Option Scanner := do
  let mark := scanner.mark
  let mark := if mark.column = 0 then mark else ⟨mark.index, mark.line + 1, 0⟩
  let scanner := { scanner with cursor := { scanner.cursor with mark } }
  let scanner ← (scanner.closeBlocks 0).dropKey?
  some (scanner.emitSign .streamEnd 0 false)

def fetchDirective? (scanner : Scanner) : Option Scanner := do
  let scanner ← (scanner.closeBlocks 0).dropKey?
  let (kind, stop, rest) ← directiveAt? scanner.cursor
  some { scanner with
    cursor := rest
    keyAllowed := false
    queue := scanner.queue ++ [⟨kind, scanner.mark, stop⟩] }

/-- The start or the end of a document. -/
def fetchDocumentSign? (scanner : Scanner) (kind : TokenKind) : Option Scanner := do
  let scanner ← (scanner.closeBlocks 0).dropKey?
  some (scanner.emitSign kind 3 false)

/-- The start of a flow collection, which may itself start a key. -/
def fetchFlowStart? (scanner : Scanner) (kind : TokenKind) : Option Scanner := do
  let scanner ← scanner.noteKey?
  let scanner := { scanner with
    flowDepth := scanner.flowDepth + 1
    keys := none :: scanner.keys }
  some (scanner.emitSign kind 1 true)

/-- The end of a flow collection. -/
def fetchFlowEnd? (scanner : Scanner) (kind : TokenKind) : Option Scanner := do
  let scanner ← scanner.dropKey?
  let scanner :=
    if scanner.inFlow then
      { scanner with flowDepth := scanner.flowDepth - 1, keys := scanner.keys.tail }
    else scanner
  some (scanner.emitSign kind 1 false)

/-- A comma between the items of a flow collection. -/
def fetchFlowEntry? (scanner : Scanner) : Option Scanner := do
  let scanner ← scanner.dropKey?
  some (scanner.emitSign .flowEntry 1 true)

/-- Open a block collection for a sign at the current place, where outside of brackets a key has to
be allowed. -/
def openForSign? (scanner : Scanner) (kind : TokenKind) : Option Scanner :=
  if scanner.inFlow then some scanner
  else if scanner.keyAllowed then
    some (scanner.openBlock scanner.nextNumber kind scanner.mark)
  else none

/-- The dash of an item. -/
def fetchBlockEntry? (scanner : Scanner) : Option Scanner := do
  let scanner ← (← scanner.openForSign? .blockSequenceStart).dropKey?
  some (scanner.emitSign .blockEntry 1 true)

/-- The question mark of a key. -/
def fetchKey? (scanner : Scanner) : Option Scanner := do
  let scanner ← (← scanner.openForSign? .blockMappingStart).dropKey?
  some (scanner.emitSign .key 1 !scanner.inFlow)

/-- The colon of a value. If a key may have started, it did. -/
def fetchValue? (scanner : Scanner) : Option Scanner :=
  match scanner.key? with
  | some key =>
      let scanner := scanner.insertAt key.number .key key.mark
      let scanner := scanner.openBlock key.number .blockMappingStart key.mark
      some ((scanner.setKey none).emitSign .value 1 false)
  | none => do
      let scanner ← scanner.openForSign? .blockMappingStart
      some (scanner.emitSign .value 1 !scanner.inFlow)

/-- An alias or an anchor. -/
def fetchAnchor? (scanner : Scanner) (kind : String → TokenKind) : Option Scanner := do
  let scanner ← scanner.noteKey?
  let (name, rest) ← anchorName? scanner.cursor.next
  some { scanner.emit (kind (String.ofList name)) rest with keyAllowed := false }

def fetchTag? (scanner : Scanner) : Option Scanner := do
  let scanner ← scanner.noteKey?
  let (kind, rest) ← tagAt? scanner.inFlow scanner.cursor
  some { scanner.emit kind rest with keyAllowed := false }

def fetchBlockScalar? (scanner : Scanner) (folds : Bool) : Option Scanner := do
  let scanner ← scanner.dropKey?
  let (text, rest) ← blockScalarAt? folds scanner.level scanner.cursor
  let style := if folds then ScalarStyle.folded else .literal
  some { scanner.emit (.scalar (String.ofList text) style) rest with keyAllowed := true }

def fetchQuoted? (scanner : Scanner) (style : ScalarStyle)
    (read? : Mark → List Char → Option Piece) : Option Scanner := do
  let scanner ← scanner.noteKey?
  let (text, rest) ← read? scanner.cursor.next.mark scanner.cursor.next.text
  some { scanner.emit (.scalar (String.ofList text) style) rest with keyAllowed := false }

def fetchPlain? (scanner : Scanner) : Option Scanner := do
  let scanner ← scanner.noteKey?
  let scalar ←
    plainScalar? ⟨scanner.inFlow, scanner.level⟩ scanner.mark .none [] scanner.cursor.text
  some { scanner.emit (.scalar (String.ofList scalar.text) .plain) scalar.rest with
    keyAllowed := scalar.brokeLine }

/-- Whether a character is a sign, so that no plain scalar starts with it. -/
def isIndicator (c : Char) : Bool :=
  ['-', '?', ':', ',', '[', ']', '\x7b', '\x7d', '#', '&', '*', '!', '|', '>', '\'', '"', '%', '@',
    '`'].contains c

/-- Whether a plain scalar starts here. A dash, a question mark or a colon may start one if no blank
follows it, the latter two only outside of brackets. -/
def startsPlain (inFlow : Bool) : List Char → Bool
  | [] => false
  | c :: text =>
      !(isGap c || isBreak c || isIndicator c)
      || (c = '-' && !text.head?.any isGap)
      || (!inFlow && (c = '?' || c = ':') && !atGap text)

def fetchToken? (scanner : Scanner) : Option Scanner :=
  match scanner.cursor.text with
  | [] => scanner.fetchEnd?
  | c :: text =>
      let atFront : Bool := scanner.mark.column = 0
      let signed : Bool := scanner.inFlow || atGap text
      if atFront ∧ c = '%' then scanner.fetchDirective?
      else if atFront ∧ startsDocument (c :: text) then scanner.fetchDocumentSign? .documentStart
      else if atFront ∧ endsDocument (c :: text) then scanner.fetchDocumentSign? .documentEnd
      else if c = '[' then scanner.fetchFlowStart? .flowSequenceStart
      else if c = '\x7b' then scanner.fetchFlowStart? .flowMappingStart
      else if c = ']' then scanner.fetchFlowEnd? .flowSequenceEnd
      else if c = '\x7d' then scanner.fetchFlowEnd? .flowMappingEnd
      else if c = ',' then scanner.fetchFlowEntry?
      else if c = '-' ∧ atGap text then scanner.fetchBlockEntry?
      else if c = '?' ∧ signed then scanner.fetchKey?
      else if c = ':' ∧ signed then scanner.fetchValue?
      else if c = '*' then scanner.fetchAnchor? .alias
      else if c = '&' then scanner.fetchAnchor? .anchor
      else if c = '!' then scanner.fetchTag?
      else if c = '|' ∧ !scanner.inFlow then scanner.fetchBlockScalar? false
      else if c = '>' ∧ !scanner.inFlow then scanner.fetchBlockScalar? true
      else if c = '\'' then
        scanner.fetchQuoted? .singleQuoted fun mark => singleQuoted? mark .none []
      else if c = '"' then
        scanner.fetchQuoted? .doubleQuoted fun mark => doubleQuoted? mark .none [] .outside
      else if startsPlain scanner.inFlow (c :: text) then scanner.fetchPlain?
      else none

/-- Go to the next token and fetch it. -/
def fetch? (scanner : Scanner) : Option Scanner := do
  let scanner ← scanner.toNextToken.dropStale?
  let scanner ← (scanner.closeBlocks (scanner.mark.column + 1)).fetchToken?
  scanner.dropStale?

/-! ## All tokens -/

/-- The number of the first token that must wait, because a key may start there. -/
def firstWaiting? (scanner : Scanner) : Option Nat :=
  scanner.keys.foldl
    (fun first key => match first, key with
      | first, none => first
      | none, some key => some key.number
      | some first, some key => some (min first key.number))
    none

/-- The tokens that need not wait, and the scanner without them. -/
def release (scanner : Scanner) : List Token × Scanner :=
  match scanner.firstWaiting? with
  | none =>
      (scanner.queue,
        { scanner with queue := [], released := scanner.released + scanner.queue.length })
  | some number =>
      let count := number - scanner.released
      (scanner.queue.take count,
        { scanner with
          queue := scanner.queue.drop count
          released := scanner.released + (scanner.queue.take count).length })

/-- Whether the last token has been fetched. -/
def isDone (tokens : List Token) : Bool := tokens.any (·.kind = .streamEnd)

/-- Whether a fetch can do with the text that is left behind it. It looks up to three characters
ahead, so that at the end of a text that is not complete they must be left. -/
def hasLookahead (complete : Bool) (scanner : Scanner) : Bool :=
  complete || scanner.cursor.text.drop 2 ≠ []

/-- Fetch and release tokens, at most so many times. -/
def run (complete : Bool) : Nat → Scanner → List Token
  | 0, _ => []
  | fuel + 1, scanner =>
      let (tokens, scanner) := scanner.release
      tokens ++
        if isDone tokens then []
        else
          match scanner.fetch? with
          | none => []
          | some scanner => if scanner.hasLookahead complete then run complete fuel scanner else []

end Scanner

/-- The tokens of a text, up to the first place where the text is not YAML. Each fetch reads at
least one character but the last one, which finds the end, so that the fuel is enough. -/
def tokens (text : List Char) : List Token :=
  let (text, complete) := readable [] [] 0 text
  let text := unifyBreaks text
  Scanner.run complete (text.length + 3) (.start text)

end OberonImports.Yaml
