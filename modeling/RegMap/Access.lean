/-!
# Access kinds

Every field declares one access kind, which fixes how software on the bus and
the hardware behind the register file may touch it.

| kind              | keyword | code | ports           |
| ----------------- | ------- | ---- | --------------- |
| `readWrite`       | `rw`    | `00` | input and output |
| `readOnly`        | `ro`    | `01` | input           |
| `writeOnly`       | `wo`    | `10` | output          |
| `writeOneToClear` | `w1c`   | `11` | input and output |

The two-bit code is what the register engine reads from its `ACCESS` parameter.
-/

namespace RegMap

/-- How a field may be touched. A field that declares no kind is `readWrite`. -/
inductive Access where
  | readWrite
  | readOnly
  | writeOnly
  | writeOneToClear
deriving DecidableEq, Inhabited

/-- The direction of a hardware port, as seen from the generated wrapper. -/
inductive Direction where
  /-- Driven by user logic into the register file. -/
  | input
  /-- Driven by the register file out to user logic. -/
  | output
deriving DecidableEq

namespace Direction

/-- The direction's keyword in a port declaration. -/
def keyword : Direction → String
  | input => "input"
  | output => "output"

/-- What a port's name ends in when its field has a port in each direction. -/
def suffix : Direction → String
  | input => "_i"
  | output => "_o"

end Direction

namespace Access

/-- Every access kind, in the order in which messages list them. -/
def all : List Access := [readOnly, readWrite, writeOnly, writeOneToClear]

/-- The word that declares the kind. -/
def keyword : Access → String
  | readWrite => "rw"
  | readOnly => "ro"
  | writeOnly => "wo"
  | writeOneToClear => "w1c"

theorem keyword_injective {a b : Access} (h : a.keyword = b.keyword) : a = b := by
  revert h
  cases a <;> cases b <;> decide

/-- The code that the register engine understands. -/
def code : Access → BitVec 2
  | readWrite => 0b00#2
  | readOnly => 0b01#2
  | writeOnly => 0b10#2
  | writeOneToClear => 0b11#2

/-- The two binary digits of the code, most significant first. -/
def codeDigits (access : Access) : List Char :=
  [access.code.getLsbD 1, access.code.getLsbD 0].map fun set => if set then '1' else '0'

/-- The directions in which a field of this kind has a port. -/
def directions : Access → List Direction
  | readWrite | writeOneToClear => [.input, .output]
  | readOnly => [.input]
  | writeOnly => [.output]

/-- Whether a field of this kind has a port in each direction. -/
def isBidirectional (access : Access) : Bool :=
  access.directions.length > 1

/-- The kind that a keyword declares. Keywords are exact: no blanks, no capitals. -/
def ofKeyword? (text : String) : Option Access :=
  all.find? fun access => access.keyword == text

theorem ofKeyword?_keyword (access : Access) : ofKeyword? access.keyword = some access := by
  cases access <;> decide

/-- The keywords, as messages list them. -/
def keywordList : String :=
  ", ".intercalate (all.map keyword)

/-- What is said of a text that is no keyword. -/
def unknownMessage (text : String) : String :=
  s!"invalid access type \"{text}\", valid types: \x7b{keywordList}\x7d"

end Access

end RegMap
