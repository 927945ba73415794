import RegMap.Text.Numeral
import RegMap.Yaml.Token

/-!
# Block scalars

A block scalar is a header and indented lines. Literal scalars keep their line
breaks; folded ones join neighbouring lines that do not start with a blank.
-/

namespace RegMap.Yaml.Block

/-- What becomes of the line breaks at the end. -/
inductive Chomping where
  | strip
  | clip
  | keep
deriving DecidableEq

/-- A header says how to end the scalar, and perhaps by how much its lines are
indented. -/
structure Header where
  chomping : Chomping := .clip
  indentation : Option Nat := none

/-- What the indicator in a header says about line breaks at the end. -/
def chomping? : Char → Option Chomping
  | '-' => some .strip
  | '+' => some .keep
  | _ => none

/-- Reads an indentation, if there is one. It is a digit other than zero. -/
def indentation : Reader (Option Nat) := do
  match ← Reader.take? Char.isDigit with
  | some '0' => throw .malformedBlockHeader
  | found => return found.bind (Text.digit? 10)

/-- Reads chomping, if there is any. -/
def chomping : Reader (Option Chomping) := do
  return (← Reader.take? fun c => (chomping? c).isSome).bind chomping?

/-- Reads both parts of a header, in either order. -/
def indicators : Reader Header := do
  match ← chomping with
  | some chosen => return ⟨chosen, ← indentation⟩
  | none =>
    match ← indentation with
    | some columns => return ⟨(← chomping).getD .clip, some columns⟩
    | none => return {}

/-- Reads a header up to and with its line break. -/
def header : Reader Header := do
  let header ← indicators
  Reader.skipLine .malformedBlockHeader
  return header

/-- The greatest indentation of the empty lines before the first other line, of
that line, and of the end of the text where there is no such line. -/
def deepest (columns : Nat) : List Spot → Except Fault Nat
  | [] => .ok columns
  | spot :: rest =>
    if spot.char = ' ' then deepest (max columns (spot.column + 1)) rest
    else if spot.char = '\t' then .error .tabIndentation
    else if isBreak spot.char then deepest columns rest
    else .ok columns

/-- The column of the scalar's lines, below a collection at `parent`. -/
def column (parent : Option Nat) (header : Header) (rest : List Spot) : Except Fault Nat :=
  match header.indentation with
  | some columns => .ok (parent.getD 0 + columns)
  | none => do
    let found ← deepest 0 rest
    return max found (max (parent.elim 0 (· + 1)) 1)

/-- The lines read so far. -/
structure Lines where
  /-- The text before the last line break, reversed. -/
  done : List Char := []
  /-- The break of the last line that is not empty. -/
  last : List Char := []
  /-- The breaks of the empty lines after it. -/
  empty : List Char := []
  /-- Whether the last line that is not empty starts with a blank. -/
  blank : Bool := false

namespace Lines

/-- The line breaks before a line that starts with a character. -/
def separator (folded : Bool) (lines : Lines) (c : Char) : List Char :=
  if folded && lines.last = ['\n'] && !lines.blank && !isBlank c then
    if lines.empty.isEmpty then [' '] else lines.empty
  else
    lines.last ++ lines.empty

/-- Starts a line. -/
def start (folded : Bool) (lines : Lines) (c : Char) : Lines :=
  ⟨c :: ((lines.separator folded c).reverse ++ lines.done), [], [], isBlank c⟩

/-- The text with the line breaks at its end that are to stay. -/
def text (chomping : Chomping) (lines : Lines) : List Char :=
  match chomping with
  | .strip => lines.done.reverse
  | .clip => lines.done.reverse ++ lines.last
  | .keep => lines.done.reverse ++ lines.last ++ lines.empty

end Lines

/-- Reads lines that are indented by `indent`, until one that is indented less. -/
def lines (folded : Bool) (indent : Nat) (within : Bool) (read : Lines) :
    List Spot → Except Fault (Lines × List Spot)
  | [] => .ok (read, [])
  | spot :: rest =>
    let c := spot.char
    if within then
      if isBreak c then
        lines folded indent false { read with last := [c] } rest
      else
        lines folded indent true { read with done := c :: read.done } rest
    else if isBreak c then
      lines folded indent false { read with empty := read.empty ++ [c] } rest
    else if spot.column < indent && c = ' ' then
      lines folded indent false read rest
    else if spot.column < indent && c = '\t' then
      .error .tabIndentation
    else if spot.column = indent then
      lines folded indent true (read.start folded c) rest
    else
      .ok (read, spot :: rest)

/-- Reads what follows the indicator of a block scalar. -/
def read (folded : Bool) (parent : Option Nat) : Reader (List Char) := do
  let header ← header
  let indent ← column parent header (← get)
  let lines ← lines folded indent false {}
  return lines.text header.chomping

end RegMap.Yaml.Block
