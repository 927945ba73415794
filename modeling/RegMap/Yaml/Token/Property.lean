import RegMap.Text.Numeral
import RegMap.Yaml.Token

/-!
# Anchors, tags and directives

An anchor names a node, an alias repeats it, and a tag says what it is. Tags may
be abbreviated by handles, which directives before a document declare.
-/

namespace RegMap.Yaml

/-! ## Names -/

/-- Reads a name, which may be empty. -/
def name : Reader (List Char) :=
  Reader.takeWhile isNameCharacter

/-- The characters other than spaces that may follow the name of an anchor. -/
def anchorEnds : List Char :=
  ['?', ':', ',', ']', '\x7d', '%', '@', '\x60']

/-- Reads the name of an anchor or alias. -/
def anchorName : Reader (List Char) := do
  let name ← name
  if name.isEmpty then
    throw .malformedAnchor
  Reader.require .malformedAnchor fun rest => spaceNext rest || charNext anchorEnds.contains rest
  return name

/-! ## Tags -/

/-- The characters of a tag besides `%`. -/
def isTagCharacter (c : Char) : Bool :=
  isNameCharacter c ||
    [';', '/', '?', ':', '@', '&', '=', '+', '$', '.', '!', '~', '*', '\x27', '(', ')'].contains c

/-- The characters of a tag that no flow collection can cut short. -/
def isDelimitedTagCharacter (c : Char) : Bool :=
  isTagCharacter c || c = ',' || c = '[' || c = ']'

/-- How many octets the encoding of a character has, by the first of them. -/
def octetCount? (first : Nat) : Option Nat :=
  if first < 0x80 then some 1
  else if first / 0x20 = 0x6 then some 2
  else if first / 0x10 = 0xE then some 3
  else if first / 0x8 = 0x1E then some 4
  else none

/-- The octet of two hexadecimal digits. -/
def octet? (high low : Spot) : Option Nat := do
  return (← Text.digit? 16 high.char) * 16 + (← Text.digit? 16 low.char)

/-- Reads the octets of a tag after `done`, which is reversed. A `%` and two
digits stand for an octet; `missing` more of them complete a character. -/
def octetsFrom (isPart : Char → Bool) (missing : Nat) (done : Octets) :
    List Spot → Except Fault (Octets × List Spot)
  | [] => if missing = 0 then .ok (done.reverse, []) else .error .malformedTag
  | spot :: rest =>
    if spot.char = '%' then
      match rest with
      | high :: low :: more =>
        match octet? high low with
        | none => .error .malformedTag
        | some octet =>
          let done := UInt8.ofNat octet :: done
          match missing with
          | 0 =>
            match octetCount? octet with
            | some count => octetsFrom isPart (count - 1) done more
            | none => .error .malformedTag
          | missing + 1 =>
            if octet / 0x40 = 2 then octetsFrom isPart missing done more
            else .error .malformedTag
      | _ => .error .malformedTag
    else if missing ≠ 0 then
      .error .malformedTag
    else if isPart spot.char then
      octetsFrom isPart 0 (UInt8.ofNat spot.char.toNat :: done) rest
    else
      .ok (done.reverse, spot :: rest)

/-- The octets of a tag that count: a NUL and those after it do not. -/
def significant (octets : Octets) : Octets :=
  octets.takeWhile (· ≠ 0)

/-- Reads the octets of a tag, at least one, and leaves out those that do not
count. -/
def octets (isPart : Char → Bool) : Reader Octets := do
  let octets ← octetsFrom isPart 0 []
  if octets.isEmpty then
    throw .malformedTag
  return significant octets

/-- The octets of characters that have one each. -/
def asciiOctets (text : List Char) : Octets :=
  text.map fun c => UInt8.ofNat c.toNat

/-- Reads a tag after its `!`: whole between `<` and `>`, or after a handle. The
primary handle is `!`, and a lone `!` is a tag without a handle. -/
def tag : Reader Token := do
  if (← Reader.take? (· = '<')).isSome then
    let octets ← octets isDelimitedTagCharacter
    Reader.take .malformedTag '>'
    return .tag [] octets
  let name ← name
  if (← Reader.take? (· = '!')).isSome then
    return .tag ('!' :: name ++ ['!']) (← octets isTagCharacter)
  match asciiOctets name ++ significant (← octetsFrom isTagCharacter 0 []) with
  | [] => return .tag [] (asciiOctets ['!'])
  | octets => return .tag ['!'] octets

/-- Reads a tag that is followed by a space, or by a separator in a flow
collection. -/
def delimitedTag (flow : Bool) : Reader Token := do
  let tag ← tag
  Reader.require .malformedTag fun rest => spaceNext rest || (flow && charNext (· = ',') rest)
  return tag

/-! ## Directives -/

/-- Reads a number of at most nine digits. -/
def versionNumber : Reader Nat := do
  let digits ← Reader.takeWhile Char.isDigit
  match Text.numeral? 10 digits with
  | some number => if digits.length ≤ 9 then return number else throw .malformedDirective
  | none => throw .malformedDirective

/-- Reads the version that a text declares. -/
def version : Reader Token := do
  Reader.skipBlanks
  let major ← versionNumber
  Reader.take .malformedDirective '.'
  let minor ← versionNumber
  return .version major minor

/-- Reads the handle that a directive declares: `!`, `!!` or a name between two
of them. -/
def handleName : Reader (List Char) := do
  Reader.take .malformedDirective '!'
  let name ← name
  match ← Reader.take? (· = '!') with
  | some _ => return '!' :: name ++ ['!']
  | none => if name.isEmpty then return ['!'] else throw .malformedDirective

/-- Reads a handle and what it stands for. -/
def handle : Reader Token := do
  Reader.skipBlanks
  let name ← handleName
  Reader.require .malformedDirective (charNext isBlank)
  Reader.skipBlanks
  let octets ← octets isDelimitedTagCharacter
  Reader.require .malformedDirective spaceNext
  return .handle name octets

/-- Reads a directive after its `%`, up to the end of its line. -/
def directive : Reader Token := do
  let name ← name
  Reader.require .malformedDirective spaceNext
  let token ←
    if name = ['Y', 'A', 'M', 'L'] then version
    else if name = ['T', 'A', 'G'] then handle
    else throw .malformedDirective
  Reader.skipLine .malformedDirective
  return token

end RegMap.Yaml
