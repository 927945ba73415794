import RegMap.Yaml.Spot

/-!
# How texts are written as scalars

A text is written as a plain scalar if that can be read back, else between single
quotes, and else between double quotes, where every character can be escaped. A
text of several lines is written as a literal scalar if its blanks allow that.
-/

namespace RegMap.Yaml.Scalar

/-! ## What a text allows -/

/-- The characters that need no escape. -/
def isPrintable (c : Char) : Bool :=
  let n := c.toNat
  n = 0xA || (0x20 ≤ n && n ≤ 0x7E) || (0xA0 ≤ n && n ≤ 0xD7FF) ||
    (0xE000 ≤ n && n ≤ 0xFFFD && n ≠ 0xFEFF) || 0x10000 ≤ n

/-- Whether a character of one class is followed by one of another. -/
def hasPair (first second : Char → Bool) : List Char → Bool
  | a :: b :: rest => (first a && second b) || hasPair first second (b :: rest)
  | _ => false

/-- Whether a word ends before these characters. -/
def wordEnds : List Char → Bool
  | [] => true
  | c :: _ => isSpace c

/-- The indicators that no plain scalar starts with, whatever follows. -/
def startIndicators : List Char :=
  ['#', ',', '[', ']', '\x7b', '\x7d', '&', '*', '!', '|', '>', '\x27', '\x22', '%', '@', '\x60']

/-- Whether a text starts like something other than a plain scalar. -/
def startsWithIndicator : List Char → Bool
  | '-' :: '-' :: '-' :: _ => true
  | '.' :: '.' :: '.' :: _ => true
  | c :: rest => startIndicators.contains c || ((c = '-' || c = '?') && wordEnds rest)
  | [] => false

/-- Whether a text that goes on after a character would be cut, as a key or by a
comment. -/
def isCut (previous : Char) : List Char → Bool
  | [] => false
  | c :: rest =>
    (c = ':' && wordEnds rest) || (c = '#' && isSpace previous) || isCut c rest

/-- Whether a text needs escapes, by its characters or by blanks before a line
break, which would be lost. -/
def needsEscapes (text : List Char) : Bool :=
  !text.all isPrintable || hasPair (· = ' ') isBreak text

/-- Whether a text is read back when it stands as it is. -/
def plainAllowed (text : List Char) : Bool :=
  !needsEscapes text && !text.any isBreak && !startsWithIndicator text && !isCut ' ' text &&
    text.head? ≠ some ' ' && text.getLast? ≠ some ' '

/-- A quoted line may not start with blanks, which would be lost. -/
def singleQuotesAllowed (text : List Char) : Bool :=
  !needsEscapes text && !hasPair isBreak (· = ' ') text

/-- Whether a text of several lines is read back when its lines stand as they are. -/
def literalAllowed (text : List Char) : Bool :=
  !needsEscapes text && text.getLast? ≠ some ' '

/-! ## Writing -/

/-- Blanks up to a column. -/
def indentation (columns : Nat) : List Char :=
  List.replicate columns ' '

/-- Text in single quotes. A quote is written twice, and lines are indented. -/
def singleQuotedFrom (indent : Nat) (afterBreak : Bool) : List Char → List Char
  | [] => (if afterBreak then indentation indent else []) ++ ['\x27']
  | c :: rest =>
    if isBreak c then
      c :: singleQuotedFrom indent true rest
    else
      (if afterBreak then indentation indent else []) ++
        (if c = '\x27' then ['\x27', '\x27'] else [c]) ++ singleQuotedFrom indent false rest

/-- A text between single quotes. -/
def singleQuoted (indent : Nat) (text : List Char) : List Char :=
  '\x27' :: singleQuotedFrom indent false text

/-- A number as so many hexadecimal digits. -/
def hexadecimal (digits value : Nat) : List Char :=
  let text := (Nat.toDigits 16 value).map Char.toUpper
  List.replicate (digits - text.length) '0' ++ text

/-- A character between double quotes. -/
def escaped (c : Char) : List Char :=
  if isPrintable c && c ≠ '\x22' && c ≠ '\\' && !isBreak c then
    [c]
  else
    '\\' ::
      match c with
      | '\x00' => ['0']
      | '\x07' => ['a']
      | '\x08' => ['b']
      | '\t' => ['t']
      | '\n' => ['n']
      | '\x0b' => ['v']
      | '\x0c' => ['f']
      | '\r' => ['r']
      | '\x1b' => ['e']
      | '\x22' => ['\x22']
      | '\\' => ['\\']
      | '\x85' => ['N']
      | '\u2028' => ['L']
      | '\u2029' => ['P']
      | c =>
        if c.toNat ≤ 0xFF then 'x' :: hexadecimal 2 c.toNat
        else if c.toNat ≤ 0xFFFF then 'u' :: hexadecimal 4 c.toNat
        else 'U' :: hexadecimal 8 c.toNat

/-- A text between double quotes. -/
def doubleQuoted (text : List Char) : List Char :=
  '\x22' :: text.flatMap escaped ++ ['\x22']

/-- What becomes of the line breaks at the end of a literal scalar: none is left
out, so a single one needs no mark. -/
def chompingMark (text : List Char) : List Char :=
  match text.reverse with
  | [] => ['-']
  | last :: before =>
    if !isBreak last then ['-'] else if before.head?.all isBreak then ['+'] else []

/-- How the lines of a literal scalar are indented, where that cannot be seen. -/
def indentationMark (text : List Char) : List Char :=
  if text.head?.any fun c => c = ' ' || isBreak c then ['2'] else []

/-- The lines of a literal scalar. Empty ones are not indented. -/
def literalLines (indent : Nat) (afterBreak : Bool) : List Char → List Char
  | [] => []
  | c :: rest =>
    if isBreak c then c :: literalLines indent true rest
    else (if afterBreak then indentation indent else []) ++ c :: literalLines indent false rest

/-- A text of several lines as a literal scalar. -/
def literal (indent : Nat) (text : List Char) : List Char :=
  '|' :: indentationMark text ++ chompingMark text ++ '\n' :: literalLines indent true text

end RegMap.Yaml.Scalar
