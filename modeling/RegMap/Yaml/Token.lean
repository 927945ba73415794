import RegMap.Yaml.Spot

/-!
# Tokens

A YAML text is a sequence of tokens. Indentation shows in them as the starts and
ends of block collections, and a key of a mapping is announced by a token of its
own, also where the text marks it only by the `:` after it.
-/

namespace RegMap.Yaml

/-- How a scalar is written. -/
inductive Style where
  | plain
  | singleQuoted
  | doubleQuoted
  | literal
  | folded
deriving DecidableEq

/-- A tag is a sequence of octets, which need not encode any text. -/
abbrev Octets := List UInt8

/-- What a text is made of. Collections in brackets or braces are flow collections, and
all others are block collections, whose starts and ends are not written. -/
inductive Token where
  | version (major minor : Nat)
  | handle (name : List Char) (octets : Octets)
  | documentStart
  | documentEnd
  | blockSequence
  | blockMapping
  | blockEnd
  | flowSequence
  | flowSequenceEnd
  | flowMapping
  | flowMappingEnd
  /-- The `-` of a sequence. -/
  | entry
  /-- The `,` of a flow collection. -/
  | separator
  | key
  | value
  | anchor (name : List Char)
  | alias (name : List Char)
  /-- A tag whose handle stands for more octets; an empty one for none. -/
  | tag (handle : List Char) (octets : Octets)
  | scalar (style : Style) (text : List Char)
deriving DecidableEq

end RegMap.Yaml
