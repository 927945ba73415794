import RegMap.Text.Numeral
import RegMap.Yaml.Token.Gap

/-!
# Quoted scalars

Between single quotes only the quote itself is written in a special way, as two
quotes. Between double quotes a backslash starts an escape; before a line break
it joins the lines.
-/

namespace RegMap.Yaml.Quoted

/-- Reads on after `done`, which is reversed and followed by a gap. -/
def singleFrom (gap : Gap) (done : List Char) : List Spot → Except Fault (List Char × List Spot)
  | [] => .error .unterminatedQuote
  | spot :: rest =>
    if isSpace spot.char then
      singleFrom (gap.extend spot.char) done rest
    else if anyMarkerNext (spot :: rest) then
      .error .markerInQuote
    else
      let done := gap.text.reverse ++ done
      if spot.char ≠ '\x27' then
        singleFrom .none (spot.char :: done) rest
      else
        match rest with
        | [] => .ok (done.reverse, [])
        | next :: more =>
          if next.char = '\x27' then
            singleFrom .none ('\x27' :: done) more
          else
            .ok (done.reverse, next :: more)

/-- Reads what follows an opening single quote. -/
def single : Reader (List Char) :=
  singleFrom .none []

/-- What the character after a backslash stands for. -/
inductive Escape where
  | char (c : Char)
  /-- The digits of a code point follow. -/
  | code (digits : Nat)

/-- What a character stands for behind a backslash. -/
def escape? : Char → Option Escape
  | '0' => some (.char '\x00')
  | 'a' => some (.char '\x07')
  | 'b' => some (.char '\x08')
  | 't' => some (.char '\t')
  | '\t' => some (.char '\t')
  | 'n' => some (.char '\n')
  | 'v' => some (.char '\x0b')
  | 'f' => some (.char '\x0c')
  | 'r' => some (.char '\r')
  | 'e' => some (.char '\x1b')
  | ' ' => some (.char ' ')
  | '\x22' => some (.char '\x22')
  | '/' => some (.char '/')
  | '\\' => some (.char '\\')
  | 'N' => some (.char '\x85')
  | '_' => some (.char '\xa0')
  | 'L' => some (.char '\u2028')
  | 'P' => some (.char '\u2029')
  | 'x' => some (.code 2)
  | 'u' => some (.code 4)
  | 'U' => some (.code 8)
  | _ => none

/-- The character of a code point. -/
def character? (code : Nat) : Option Char :=
  if h : code.isValidChar then some (Char.ofNatAux code h) else none

/-- A code point of which some digits are still to be read. -/
structure Pending where
  digits : Nat
  value : Nat

/-- Reads on after `done`, which is reversed and followed by a gap or by an
unfinished code point. -/
def doubleFrom (pending : Option Pending) (gap : Gap) (done : List Char) :
    List Spot → Except Fault (List Char × List Spot)
  | [] => .error .unterminatedQuote
  | spot :: rest =>
    match pending with
    | some ⟨digits, value⟩ =>
      match Text.digit? 16 spot.char with
      | none => .error .malformedEscape
      | some digit =>
        let value := value * 16 + digit
        if digits > 1 then
          doubleFrom (some ⟨digits - 1, value⟩) gap done rest
        else
          match character? value with
          | some c => doubleFrom none .none (c :: done) rest
          | none => .error .malformedEscape
    | none =>
      if isSpace spot.char then
        doubleFrom none (gap.extend spot.char) done rest
      else if anyMarkerNext (spot :: rest) then
        .error .markerInQuote
      else
        let done := gap.text.reverse ++ done
        if spot.char = '\x22' then
          .ok (done.reverse, rest)
        else if spot.char ≠ '\\' then
          doubleFrom none .none (spot.char :: done) rest
        else
          match rest with
          | [] => .error .malformedEscape
          | next :: more =>
            if isBreak next.char then
              doubleFrom none (.broken none []) done more
            else
              match escape? next.char with
              | some (.char c) => doubleFrom none .none (c :: done) more
              | some (.code digits) => doubleFrom (some ⟨digits, 0⟩) .none done more
              | none => .error .malformedEscape

/-- Reads what follows an opening double quote. -/
def double : Reader (List Char) :=
  doubleFrom none .none []

end RegMap.Yaml.Quoted
