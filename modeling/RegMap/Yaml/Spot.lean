import RegMap.Yaml.Fault

/-!
# The characters of a YAML text

A text is read as a list of spots: its characters, each with its place in the
text. Line breaks of one or two characters become a single line feed; the
separators of lines and paragraphs break lines too, and stay what they are. What
is left to read is always a tail of that list.
-/

namespace RegMap.Yaml

/-! ## Classes of characters -/

/-- The characters that a text may hold. -/
def isReadable (c : Char) : Bool :=
  let n := c.toNat
  n = 0x9 || n = 0xA || n = 0xD || (0x20 ≤ n && n ≤ 0x7E) || n = 0x85 ||
    (0xA0 ≤ n && n ≤ 0xD7FF) || (0xE000 ≤ n && n ≤ 0xFFFD) || 0x10000 ≤ n

/-- The mark that may open a text. -/
def byteOrderMark : Char := '\ufeff'

/-- The characters that end a line. -/
def isBreak (c : Char) : Bool :=
  c = '\n' || c = '\r' || c = '\x85' || c = '\u2028' || c = '\u2029'

/-- The characters that separate words of a line. -/
def isBlank (c : Char) : Bool :=
  c = ' ' || c = '\t'

/-- Blanks and line breaks. -/
def isSpace (c : Char) : Bool :=
  isBlank c || isBreak c

/-- The characters of names: of anchors, tag handles and directives. -/
def isNameCharacter (c : Char) : Bool :=
  c.isAlphanum || c = '_' || c = '-'

/-- The characters that have a meaning inside flow collections. -/
def isFlowIndicator (c : Char) : Bool :=
  c = ',' || c = '[' || c = ']' || c = '\x7b' || c = '\x7d'

/-! ## Spots -/

/-- A character of a text, and its line and column counted from zero. -/
structure Spot where
  char : Char
  line : Nat
  column : Nat
  /-- How many octets precede the character. -/
  offset : Nat

/-- The text with a line feed for each line break of CR, LF or NEL. -/
def unifyBreaks : List Char → List Char
  | '\r' :: '\n' :: rest => '\n' :: unifyBreaks rest
  | '\r' :: rest => '\n' :: unifyBreaks rest
  | '\x85' :: rest => '\n' :: unifyBreaks rest
  | c :: rest => c :: unifyBreaks rest
  | [] => []

/-- The spots of a text that goes on at a line and column, after some octets. -/
def spotsFrom (line column offset : Nat) : List Char → List Spot
  | [] => []
  | c :: rest =>
    let next := offset + c.utf8Size
    ⟨c, line, column, offset⟩ ::
      if isBreak c then spotsFrom (line + 1) 0 next rest
      else spotsFrom line (column + 1) next rest

/-- The spots of a text without control characters. -/
def spots (text : List Char) : Except Fault (List Spot) :=
  match text.find? (!isReadable ·) with
  | some c => .error (.unreadable c)
  | none => .ok (spotsFrom 0 0 0 (unifyBreaks text))

/-! ## Readers -/

/-- Readers take what they read from the spots that are left. -/
abbrev Reader := StateT (List Spot) (Except Fault)

/-- Whether a space or the end of the text is next. -/
def spaceNext : List Spot → Bool
  | [] => true
  | spot :: _ => isSpace spot.char

/-- Whether one of some characters is next. -/
def charNext (isNext : Char → Bool) : List Spot → Bool
  | [] => false
  | spot :: _ => isNext spot.char

/-- Whether the next line starts or ends a document: it begins with three equal
indicators, followed by a space or by nothing. -/
def markerNext (indicator : Char) : List Spot → Bool
  | first :: second :: third :: rest =>
    first.column = 0 && first.char = indicator && second.char = indicator &&
      third.char = indicator && spaceNext rest
  | _ => false

/-- Whether any document marker is next. -/
def anyMarkerNext (rest : List Spot) : Bool :=
  markerNext '-' rest || markerNext '.' rest

namespace Reader

/-- Fails unless something is the case next. -/
def require (fault : Fault) (isNext : List Spot → Bool) : Reader Unit := do
  unless isNext (← get) do
    throw fault

/-- Reads a character if it is next. -/
def take? (isNext : Char → Bool) : Reader (Option Char) := fun rest =>
  match rest with
  | [] => .ok (none, [])
  | spot :: more =>
    if isNext spot.char then .ok (some spot.char, more) else .ok (none, rest)

/-- Reads a character that has to be next. -/
def take (fault : Fault) (c : Char) : Reader Unit := do
  if (← take? (· = c)).isNone then
    throw fault

/-- Reads characters as long as they are of a class. -/
def takeWhile (isPart : Char → Bool) : Reader (List Char) := fun rest =>
  .ok ((rest.takeWhile (isPart ·.char)).map (·.char), rest.dropWhile (isPart ·.char))

/-- Goes on behind the blanks. -/
def skipBlanks : Reader Unit := do
  let _ ← takeWhile isBlank

/-- Skips what may follow on a line, blanks and a comment, and its line break. -/
def skipLine (fault : Fault) : Reader Unit := do
  skipBlanks
  if charNext (· = '#') (← get) then
    let _ ← takeWhile (!isBreak ·)
  require fault spaceNext
  let _ ← take? isBreak

end Reader

end RegMap.Yaml
