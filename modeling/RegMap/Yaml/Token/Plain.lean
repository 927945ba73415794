import RegMap.Yaml.Token.Gap

/-!
# Plain scalars

A plain scalar has no delimiters: it ends before a comment, a `:` that makes it a
key, an indicator of the flow collection around it, a document marker, or, in a
block, a line that is indented too little.
-/

namespace RegMap.Yaml.Plain

/-- The indicators that no plain scalar starts with, whatever follows. -/
def startExcluded : List Char :=
  [',', '[', ']', '\x7b', '\x7d', '#', '&', '*', '!', '|', '>', '\x27', '\x22', '%', '@', '\x60']

/-- Whether a plain scalar can start here. -/
def startsHere (flow : Bool) : List Spot → Bool
  | [] => false
  | spot :: rest =>
    if spot.char = '-' then !charNext isBlank rest
    else if spot.char = '?' || spot.char = ':' then !flow && !spaceNext rest
    else !isSpace spot.char && !startExcluded.contains spot.char

/-- Whether a `:` before these spots is ambiguous in a flow collection. -/
def isAmbiguous (rest : List Spot) : Bool :=
  charNext (fun c => isFlowIndicator c || c = '?') rest

/-- The words of a scalar after `done`, which is reversed and followed by a gap.
Lines have to be indented by `indent` at least. -/
def words (flow : Bool) (indent : Nat) (gap : Gap) (done : List Char) :
    List Spot → Except Fault ((List Char × Gap) × List Spot)
  | [] => .ok ((done.reverse, gap), [])
  | spot :: rest =>
    let c := spot.char
    let ended := .ok ((done.reverse, gap), spot :: rest)
    if isSpace c then
      if c = '\t' && gap.isBroken && spot.column < indent then
        .error .tabIndentation
      else
        words flow indent (gap.extend c) done rest
    else if gap ≠ .none &&
        (c = '#' || anyMarkerNext (spot :: rest) || (!flow && spot.column < indent)) then
      ended
    else if flow && c = ':' && isAmbiguous rest then
      .error .ambiguousColon
    else if (c = ':' && spaceNext rest) || (flow && isFlowIndicator c) then
      ended
    else
      words flow indent .none (c :: (gap.text.reverse ++ done)) rest

/-- Reads a plain scalar and the gap after it. -/
def read (flow : Bool) (indent : Nat) : Reader (List Char × Gap) :=
  words flow indent .none []

end RegMap.Yaml.Plain
