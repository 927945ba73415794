import RegMap.Access
import RegMap.Address
import RegMap.Palette

/-!
# Diagnostics

A `Finding` is what is wrong with a declaration, a layout or a map. Placed in a
`Context` it becomes a `Diagnostic`: a message with its notes, ready to print.
Two diagnostics are equal when everything they say is.
-/

namespace RegMap

/-- How grave a finding is. Both ranks keep a map from being generated. -/
inductive Rank where
  | warning
  | error
deriving DecidableEq

/-- The kinds of findings. -/
inductive Kind where
  | widthExceeded
  | zeroWidth
  | invalidAccess
  | zeroCount
  | unknownProperty
  | invalidProperty
  | duplicateField
  | overflow
  | mixedAccess
  | overlap
  | addressGap
  | unplaced
  | empty
deriving DecidableEq

namespace Kind

/-- The number that identifies a kind: declarations count from 0, layouts from
1000, whole maps from 2000. -/
def code : Kind → Nat
  | widthExceeded => 0
  | zeroWidth => 1
  | invalidAccess => 2
  | zeroCount => 3
  | unknownProperty => 4
  | invalidProperty => 5
  | duplicateField => 6
  | overflow => 1000
  | mixedAccess => 1001
  | overlap => 1002
  | addressGap => 1003
  | unplaced => 1004
  | empty => 2000

/-- Only a map without fields is a warning. -/
def rank : Kind → Rank
  | empty => .warning
  | _ => .error

/-- The code as a header shows it, with four digits. -/
def codeText (kind : Kind) : String :=
  let digits := Nat.toDigits 10 kind.code
  "[E" ++ String.ofList (List.replicate (4 - digits.length) '0' ++ digits) ++ "]"

end Kind

/-- Something that is wrong, with what a reader needs to know about it. -/
inductive Finding where
  | widthExceeded (width : Int) (limit : Nat)
  | zeroWidth (width : Int) (limit : Nat)
  | invalidAccess (offending : String)
  | zeroCount (count : Int)
  | unknownProperty (offending : String) (known : List String)
  | invalidProperty (property expected found : String)
  | duplicateField (offending : String)
  | overflow (occupied limit : Nat)
  | mixedAccess (offending : String) (offendingAccess expected : Access)
  | overlap (lhs rhs occupied : String)
  | addressGap (found expected : UInt32)
  | unplaced (offending : String) (placed count : Nat)
  | empty

namespace Finding

/-- The kind of a finding. -/
def kind : Finding → Kind
  | widthExceeded .. => .widthExceeded
  | zeroWidth .. => .zeroWidth
  | invalidAccess .. => .invalidAccess
  | zeroCount .. => .zeroCount
  | unknownProperty .. => .unknownProperty
  | invalidProperty .. => .invalidProperty
  | duplicateField .. => .duplicateField
  | overflow .. => .overflow
  | mixedAccess .. => .mixedAccess
  | overlap .. => .overlap
  | addressGap .. => .addressGap
  | unplaced .. => .unplaced
  | empty => .empty

/-- The sentence that tells the finding. Its particulars are in bold. -/
def message (palette : Palette) : Finding → String
  | widthExceeded width limit =>
    s!"field width {palette.strong (toString width)} exceeds the {limit}-bit register width"
  | zeroWidth width _ =>
    s!"field width {palette.strong (toString width)} does not occupy any bits"
  | invalidAccess offending => Access.unknownMessage (palette.strong offending)
  | zeroCount count =>
    s!"field count {palette.strong (toString count)} must be at least 1"
  | unknownProperty offending _ => s!"unknown property \"{palette.strong offending}\""
  | invalidProperty property expected found =>
    s!"property \"{palette.strong property}\" expects {expected}, found {found}"
  | duplicateField offending =>
    s!"field [{palette.strong offending}] is declared more than once"
  | overflow occupied limit =>
    s!"register occupies {palette.strong (toString occupied)} bits, " ++
      s!"exceeding the {limit}-bit register width"
  | mixedAccess offending offendingAccess expected =>
    s!"field [{palette.strong offending}] with access " ++
      s!"{palette.strong offendingAccess.keyword} resides in a register with access " ++
      palette.strong expected.keyword
  | overlap lhs rhs occupied =>
    s!"fields [{palette.strong lhs}] and [{palette.strong rhs}] overlap, " ++
      s!"occupying {palette.strong occupied}"
  | addressGap found expected =>
    s!"register is allocated at {palette.strong (Address.text found)} " ++
      s!"but the next free address is {palette.strong (Address.text expected)}"
  | unplaced offending placed count =>
    s!"field [{palette.strong offending}] has {placed} of {count} replicas placed"
  | empty => "no fields are declared, the register file would be empty"

/-- What helps to mend the finding. -/
def notes (palette : Palette) : Finding → List String
  | widthExceeded _ limit | zeroWidth _ limit =>
    [s!"width must satisfy: 1 <= width <= {limit}"]
  | unknownProperty _ known =>
    ["known properties: [" ++ ", ".intercalate (known.map palette.strong) ++ "]"]
  | _ => []

end Finding

/-- Where in a map a diagnostic belongs, from the outside in. -/
structure Context where
  segments : List String
deriving DecidableEq

namespace Context

/-- The map as a whole. -/
def root : Context := ⟨[]⟩

/-- A place inside this one. -/
def push (context : Context) (segment : String) : Context :=
  ⟨context.segments ++ [segment]⟩

/-- A declared field. -/
def field (ident : String) : Context :=
  root.push s!"field {ident}"

/-- The segment that names a register. -/
def registerSegment (address : UInt32) : String :=
  s!"register {Address.text address}"

/-- A register, by its address. -/
def register (address : UInt32) : Context :=
  root.push (registerSegment address)

/-- Whether a context is the place of the map itself. -/
def isRoot (context : Context) : Bool :=
  context.segments.isEmpty

/-- The segments of a context, with a slash between them. -/
def text (palette : Palette) (context : Context) : String :=
  "/".intercalate (context.segments.map palette.strong)

end Context

/-- A finding in its place, as it is told. -/
structure Diagnostic where
  rank : Rank
  kind : Kind
  message : String
  notes : List String
  context : Context
deriving DecidableEq

/-- The finding, told about a place. -/
def Finding.at (finding : Finding) (palette : Palette) (context : Context) : Diagnostic :=
  ⟨finding.kind.rank, finding.kind, finding.message palette, finding.notes palette, context⟩

namespace Diagnostic

/-- The diagnostic with more notes below those it has. -/
def withNotes (diagnostic : Diagnostic) (notes : List String) : Diagnostic :=
  { diagnostic with notes := diagnostic.notes ++ notes }

/-- The rank and code that head a diagnostic. -/
def header (palette : Palette) (diagnostic : Diagnostic) : String :=
  match diagnostic.rank with
  | .warning => palette.apply .warning ("warning" ++ diagnostic.kind.codeText)
  | .error => palette.apply .error ("error" ++ diagnostic.kind.codeText)

/-- The header and message on the first line, then a line for each note. -/
def text (palette : Palette) (diagnostic : Diagnostic) : String :=
  "\n".intercalate
    (s!"{diagnostic.header palette}: {diagnostic.message}"
      :: diagnostic.notes.map fun note => "  " ++ palette.apply .note "note" ++ ": " ++ note)

end Diagnostic

end RegMap
