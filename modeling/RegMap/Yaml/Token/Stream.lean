import RegMap.Yaml.Token.Block
import RegMap.Yaml.Token.Plain
import RegMap.Yaml.Token.Property
import RegMap.Yaml.Token.Quoted

/-!
# The tokens of a text

Tokens are read from left to right. What starts at a place where a key may start
is remembered with its position: when a `:` follows on the same line, the tokens
that announce the key are put in before it. Block collections start where a
token is indented more than the collection around it, and end where one is
indented less.
-/

namespace RegMap.Yaml

/-- A token that becomes a key when a `:` follows it. -/
structure PossibleKey where
  /-- Whether its line cannot be anything but the next key of its mapping. -/
  isRequired : Bool
  /-- How many tokens precede it. -/
  position : Nat
  line : Nat
  column : Nat
  offset : Nat

/-- The tokens read so far, and what is left. -/
structure Scan where
  rest : List Spot
  /-- The last token comes first. -/
  tokens : List Token := []
  /-- How many tokens there are. -/
  count : Nat := 0
  /-- The columns of the block collections around the place, from the inside. -/
  indents : List Nat := []
  key : Option PossibleKey := none
  /-- The possible keys in the collections around the flow collection of the
  place, from the inside: one for each flow collection. -/
  outerKeys : List (Option PossibleKey) := []
  /-- Whether a key may start here. -/
  keyAllowed : Bool := true

namespace Scan

/-- Whether the place is inside a flow collection. -/
def inFlow (scan : Scan) : Bool :=
  !scan.outerKeys.isEmpty

/-- Adds a token at the end. -/
def emit (scan : Scan) (token : Token) : Scan :=
  { scan with tokens := token :: scan.tokens, count := scan.count + 1 }

/-- Puts in tokens after the first `position` ones. -/
def insert (scan : Scan) (position : Nat) (tokens : List Token) : Scan :=
  let later := scan.count - position
  { scan with
    tokens := scan.tokens.take later ++ tokens.reverse ++ scan.tokens.drop later
    count := scan.count + tokens.length }

/-- Reads a part of the text. -/
def read {α : Type} (scan : Scan) (reader : Reader α) : Except Fault (α × Scan) := do
  let (result, rest) ← reader scan.rest
  return (result, { scan with rest })

/-- Moves on by some characters. -/
def advance (scan : Scan) (characters : Nat) : Scan :=
  { scan with rest := scan.rest.drop characters }

/-! ## Keys -/

/-- Gives up the possible key at this place. -/
def dropKey (scan : Scan) : Except Fault Scan :=
  if scan.key.any (·.isRequired) then .error .keyWithoutValue else .ok { scan with key := none }

/-- Remembers that a key may start at a place. -/
def saveKey (scan : Scan) (spot : Spot) : Except Fault Scan :=
  if scan.keyAllowed then do
    let scan ← scan.dropKey
    let isRequired := !scan.inFlow && scan.indents.head? = some spot.column
    return { scan with key := some ⟨isRequired, scan.count, spot.line, spot.column, spot.offset⟩ }
  else
    .ok scan

/-- Whether a key can still end at a place: it has to be on one line and shorter
than 1024 octets. -/
def isFresh (spot : Spot) (key : PossibleKey) : Bool :=
  spot.line ≤ key.line && spot.offset ≤ key.offset + 1024

/-- Gives up the possible keys that cannot end at a place any more. -/
def expireKeys (scan : Scan) (spot : Spot) : Except Fault Scan :=
  if (scan.key :: scan.outerKeys).any (·.any fun key => !isFresh spot key && key.isRequired) then
    .error .keyWithoutValue
  else
    .ok { scan with
      key := scan.key.filter (isFresh spot)
      outerKeys := scan.outerKeys.map (·.filter (isFresh spot)) }

/-! ## Block collections -/

/-- Ends block collections from the inside, as long as their columns are left. -/
def closeWhile (isLeft : Nat → Bool) : List Nat → Scan → Scan
  | [], scan => { scan with indents := [] }
  | indent :: outer, scan =>
    if isLeft indent then closeWhile isLeft outer (scan.emit .blockEnd)
    else { scan with indents := indent :: outer }

/-- Ends the block collections whose columns are left at this place. Inside a
flow collection none is. -/
def close (scan : Scan) (isLeft : Nat → Bool) : Scan :=
  if scan.inFlow then scan else closeWhile isLeft scan.indents scan

/-- Ends all block collections, and gives up the possible key. -/
def closeAll (scan : Scan) : Except Fault Scan :=
  (scan.close fun _ => true).dropKey

/-- Starts a block collection at a column, unless one is there already. -/
def openBlock (scan : Scan) (column position : Nat) (start : Token) : Scan :=
  if scan.inFlow || scan.indents.head?.any (column ≤ ·) then scan
  else { scan.insert position [start] with indents := column :: scan.indents }

/-! ## Gaps between tokens -/

/-- Skips spaces, comments and line breaks. Tabs are skipped only where they
cannot be taken for indentation. After a line break a key may start. -/
def skipGap (inFlow keyAllowed inComment : Bool) : List Spot → Bool × List Spot
  | [] => (keyAllowed, [])
  | spot :: rest =>
    let c := spot.char
    if isBreak c then
      skipGap inFlow (keyAllowed || !inFlow) false rest
    else if inComment || c = '#' then
      skipGap inFlow keyAllowed true rest
    else if c = ' ' || (c = '\t' && (inFlow || !keyAllowed)) ||
        (c = byteOrderMark && spot.column = 0) then
      skipGap inFlow keyAllowed false rest
    else
      (keyAllowed, spot :: rest)

/-- Goes on behind blanks, comments and line breaks. -/
def toNextToken (scan : Scan) : Scan :=
  let (keyAllowed, rest) := skipGap scan.inFlow scan.keyAllowed false scan.rest
  { scan with keyAllowed, rest }

/-! ## Tokens -/

/-- A token that no key can start or contain. -/
def indicator (scan : Scan) (token : Token) (characters : Nat) (keyAllowed : Bool) :
    Except Fault Scan := do
  let scan ← scan.dropKey
  return { (scan.advance characters).emit token with keyAllowed }

/-- The start of a flow collection. -/
def openFlow (scan : Scan) (spot : Spot) (token : Token) : Except Fault Scan := do
  let scan ← scan.saveKey spot
  return { (scan.advance 1).emit token with
    key := none, outerKeys := scan.key :: scan.outerKeys, keyAllowed := true }

/-- The end of a flow collection. -/
def closeFlow (scan : Scan) (token : Token) : Except Fault Scan := do
  let scan ← scan.indicator token 1 false
  match scan.outerKeys with
  | [] => return scan
  | key :: outerKeys => return { scan with key, outerKeys }

/-- The start of an entry that a block collection begins with, if there is none. -/
def openEntry (scan : Scan) (spot : Spot) (start : Token) : Except Fault Scan :=
  if scan.inFlow then .ok scan
  else if scan.keyAllowed then .ok (scan.openBlock spot.column scan.count start)
  else .error (.misplaced spot.char)

/-- The `-` of a sequence. -/
def blockEntry (scan : Scan) (spot : Spot) : Except Fault Scan := do
  let scan ← scan.openEntry spot .blockSequence
  scan.indicator .entry 1 true

/-- The `?` before a key. -/
def explicitKey (scan : Scan) (spot : Spot) : Except Fault Scan := do
  let scan ← scan.openEntry spot .blockMapping
  scan.indicator .key 1 !scan.inFlow

/-- The `:` before a value. -/
def value (scan : Scan) (spot : Spot) : Except Fault Scan := do
  match scan.key with
  | some key =>
    let scan := (scan.insert key.position [.key]).openBlock key.column key.position .blockMapping
    return { (scan.advance 1).emit .value with key := none, keyAllowed := false }
  | none =>
    let scan ← scan.openEntry spot .blockMapping
    return { (scan.advance 1).emit .value with keyAllowed := !scan.inFlow }

/-- A token that may be a key or start one. -/
def keyed (scan : Scan) (spot : Spot) (reader : Reader Token) : Except Fault Scan := do
  let scan ← scan.saveKey spot
  let (token, scan) ← { scan with keyAllowed := false }.read reader
  return scan.emit token

/-- A quoted scalar, an anchor, an alias or a tag. -/
def marked (scan : Scan) (spot : Spot) (reader : Reader Token) : Except Fault Scan :=
  scan.keyed spot do
    modify List.tail
    reader

/-- A scalar of indented lines. -/
def blockScalar (scan : Scan) (folded : Bool) : Except Fault Scan := do
  let scan ← (scan.advance 1).dropKey
  let (text, scan) ← { scan with keyAllowed := true }.read (Block.read folded scan.indents.head?)
  return scan.emit (.scalar (if folded then .folded else .literal) text)

/-- A plain scalar. A key may start after it where it ends with its line. -/
def plainScalar (scan : Scan) (spot : Spot) : Except Fault Scan := do
  let scan ← scan.saveKey spot
  let indent := scan.indents.head?.elim 0 (· + 1)
  let ((text, gap), scan) ← scan.read (Plain.read scan.inFlow indent)
  return { scan.emit (.scalar .plain text) with keyAllowed := gap.isBroken }

/-- A token that starts at the beginning of a line and ends all collections. -/
def atMargin (scan : Scan) (reader : Reader Token) : Except Fault Scan := do
  let scan ← scan.closeAll
  let (token, scan) ← { scan with keyAllowed := false }.read reader
  return scan.emit token

/-- Reads the token that starts at a spot, the first of those that are left. -/
def token (scan : Scan) (spot : Spot) : Except Fault Scan :=
  let next := scan.rest.tail
  if spot.column = 0 && spot.char = '%' then
    scan.atMargin do
      modify List.tail
      directive
  else if markerNext '-' scan.rest then
    scan.atMargin do
      modify (List.drop 3)
      return .documentStart
  else if markerNext '.' scan.rest then
    scan.atMargin do
      modify (List.drop 3)
      return .documentEnd
  else
    match spot.char with
    | '[' => scan.openFlow spot .flowSequence
    | '\x7b' => scan.openFlow spot .flowMapping
    | ']' => scan.closeFlow .flowSequenceEnd
    | '\x7d' => scan.closeFlow .flowMappingEnd
    | ',' => scan.indicator .separator 1 true
    | '*' => scan.marked spot do return .alias (← anchorName)
    | '&' => scan.marked spot do return .anchor (← anchorName)
    | '!' => scan.marked spot (delimitedTag scan.inFlow)
    | '\x27' => scan.marked spot do return .scalar .singleQuoted (← Quoted.single)
    | '\x22' => scan.marked spot do return .scalar .doubleQuoted (← Quoted.double)
    | c =>
      if c = '-' && spaceNext next then scan.blockEntry spot
      else if c = '?' && (scan.inFlow || spaceNext next) then scan.explicitKey spot
      else if c = ':' && (scan.inFlow || spaceNext next) then scan.value spot
      else if c = '|' && !scan.inFlow then scan.blockScalar false
      else if c = '>' && !scan.inFlow then scan.blockScalar true
      else if Plain.startsHere scan.inFlow scan.rest then scan.plainScalar spot
      else .error (.unexpected c)

/-- Reads one token after another, `bound` of them at most. -/
def run (bound : Nat) (scan : Scan) : Except Fault Scan :=
  let scan := scan.toNextToken
  match bound, scan.rest with
  | _, [] => scan.closeAll
  | 0, spot :: _ => .error (.unexpected spot.char)
  | bound + 1, spot :: _ => do
    let scan ← scan.expireKeys spot
    run bound (← (scan.close (· > spot.column)).token spot)

end Scan

/-- The tokens of a text. Each takes one character at least. -/
def tokens (text : List Char) : Except Fault (List Token) := do
  let rest ← spots text
  let scan ← Scan.run rest.length { rest }
  return scan.tokens.reverse

end RegMap.Yaml
