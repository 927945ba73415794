import RegMap.Yaml.Scalar
import RegMap.Yaml.Value

/-!
# Trees as block documents

Trees of texts, truth values, sequences and mappings are written in block style:
the entries of a mapping and the items of a sequence start lines of their own. A
sequence that is the value of a key is not indented. A key that is too long, or
has several lines, is marked with `?`.
-/

namespace RegMap.Yaml

/-- What can be written: texts and truth values, in sequences and mappings. -/
inductive Tree where
  | text (value : String)
  | truth (value : Bool)
  | sequence (items : List Tree)
  | mapping (entries : List (String × Tree))

namespace Tree

/-- How many columns one level is indented. -/
def step : Nat := 2

/-- How many octets a key may have without a mark. -/
def maxKeyOctets : Nat := 128

/-- Whether a text is read back as a text when it is a plain scalar. -/
def readsAsText (value : String) : Bool :=
  match Value.ofPlain value with
  | .ok (.text _) => true
  | _ => false

/-- A text as a scalar whose further lines are indented. -/
def scalar (indent : Nat) (value : String) : List Char :=
  let text := value.toList
  if text.contains '\n' then
    if Scalar.literalAllowed text then Scalar.literal indent text else Scalar.doubleQuoted text
  else if readsAsText value && Scalar.plainAllowed text then
    text
  else if Scalar.singleQuotesAllowed text then
    Scalar.singleQuoted indent text
  else
    Scalar.doubleQuoted text

/-- A scalar and the end of its line, unless it ends one itself. -/
def scalarLine (indent : Nat) (value : String) : List Char :=
  let written := scalar indent value
  if written.getLast?.any isBreak then written else written ++ ['\n']

mutual

/-- The lines of a tree whose first one starts at the current place; the others
start at column `indent`. -/
def block (indent : Nat) : Tree → List Char
  | text value => scalarLine indent value
  | truth value => (if value then "true\n" else "false\n").toList
  | sequence items => sequenceLines indent items
  | mapping entries => mappingLines indent entries

/-- The items of a sequence. -/
def sequenceLines (indent : Nat) : List Tree → List Char
  | [] => "[]\n".toList
  | [item] => '-' :: ' ' :: block (indent + step) item
  | item :: rest =>
    '-' :: ' ' :: block (indent + step) item ++
      Scalar.indentation indent ++ sequenceLines indent rest

/-- What follows a key: scalars on its line, collections below it. -/
def valueLines (indent : Nat) : Tree → List Char
  | text value => ' ' :: scalarLine (indent + step) value
  | truth value => (if value then " true\n" else " false\n").toList
  | sequence [] => " []\n".toList
  | sequence items => '\n' :: Scalar.indentation indent ++ sequenceLines indent items
  | mapping [] => " \x7b\x7d\n".toList
  | mapping entries =>
    '\n' :: Scalar.indentation (indent + step) ++ mappingLines (indent + step) entries

/-- One entry of a mapping. -/
def entryLines (indent : Nat) : String × Tree → List Char
  | (key, value) =>
    if key.utf8ByteSize ≤ maxKeyOctets && !key.toList.any isBreak then
      scalar indent key ++ ':' :: valueLines indent value
    else
      '?' :: ' ' :: scalarLine (indent + step) key ++
        Scalar.indentation indent ++ ':' :: ' ' :: block (indent + step) value

/-- The entries of a mapping. -/
def mappingLines (indent : Nat) : List (String × Tree) → List Char
  | [] => "\x7b\x7d\n".toList
  | [entry] => entryLines indent entry
  | entry :: rest =>
    entryLines indent entry ++ Scalar.indentation indent ++ mappingLines indent rest

end

/-- The document whose root is a mapping. -/
def document (entries : List (String × Tree)) : String :=
  String.ofList (mappingLines 0 entries)

end Tree

end RegMap.Yaml
