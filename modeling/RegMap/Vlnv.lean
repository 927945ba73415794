import RegMap.Text.Split

/-!
# Core identifiers

A core is identified by `vendor:library:name` or `vendor:library:name:version`.
The name may carry an older spelling of the version after a `-`: the generated
module is named after the part before it, while the core keeps the whole name.
-/

namespace RegMap

/-- The identifier of a core. -/
structure Vlnv where
  vendor : String
  library : String
  name : String
  version : Option String
deriving DecidableEq

namespace Vlnv

/-- What keeps a text from being an identifier. -/
inductive Fault where
  | tooFewSegments
  | tooManySegments
  | emptyModuleName
  | moduleNameNotIdentifier
  | pathSeparator
deriving DecidableEq

/-- What is told of a fault. -/
def Fault.reason : Fault → String
  | tooFewSegments => "expected vendor:library:name[:version]"
  | tooManySegments => "too many segments"
  | emptyModuleName => "the name segment is empty"
  | moduleNameNotIdentifier => "the module name is not a Verilog identifier"
  | pathSeparator => "the name segment contains a path separator"

/-- A text that was refused, and why. -/
structure Malformed where
  text : String
  fault : Fault

/-- What is told of a malformed identifier. -/
def Malformed.message (malformed : Malformed) : String :=
  s!"malformed vlnv \"{malformed.text}\": {malformed.fault.reason}"

/-- The base name of the generated module and its sources. -/
def moduleName (vlnv : Vlnv) : String :=
  String.ofList (vlnv.name.toList.takeWhile (· ≠ '-'))

/-- The base name of the generated core descriptor. -/
def coreName (vlnv : Vlnv) : String :=
  vlnv.name

/-- The segments of the identifier in order. -/
def segments (vlnv : Vlnv) : List String :=
  [vlnv.vendor, vlnv.library, vlnv.name] ++ vlnv.version.toList

/-- The identifier as it is written. -/
def text (vlnv : Vlnv) : String :=
  ":".intercalate vlnv.segments

/-- The characters that may start a simple Verilog identifier. -/
def isIdentifierStart (c : Char) : Bool :=
  c.isAlpha || c = '_'

/-- The characters that may follow in a simple Verilog identifier. -/
def isIdentifierRest (c : Char) : Bool :=
  c.isAlphanum || c = '_' || c = '$'

/-- A simple Verilog identifier: an ASCII letter or `_`, then ASCII letters,
digits, `_` and `$`. -/
def isIdentifier : List Char → Bool
  | [] => false
  | c :: rest => isIdentifierStart c && rest.all isIdentifierRest

/-- What is wrong with an identifier of three or four segments, if anything is. -/
def fault? (vlnv : Vlnv) : Option Fault :=
  if vlnv.moduleName.isEmpty then
    some .emptyModuleName
  else if !isIdentifier vlnv.moduleName.toList then
    some .moduleNameNotIdentifier
  else if vlnv.coreName.toList.any fun c => c = '/' || c = '\\' then
    some .pathSeparator
  else
    none

/-- The identifier of a number of segments that fits one. -/
def ofSegments : List String → Except Fault Vlnv
  | [vendor, library, name] => .ok ⟨vendor, library, name, none⟩
  | [vendor, library, name, version] => .ok ⟨vendor, library, name, some version⟩
  | _ :: _ :: _ :: _ :: _ :: _ => .error .tooManySegments
  | _ => .error .tooFewSegments

/-- Reads an identifier. Of several faults the first in the order of `Fault` is
reported. -/
def ofText (text : String) : Except Malformed Vlnv :=
  match ofSegments ((Text.segments ':' text.toList).map String.ofList) with
  | .error fault => .error ⟨text, fault⟩
  | .ok vlnv =>
    match vlnv.fault? with
    | some fault => .error ⟨text, fault⟩
    | none => .ok vlnv

end Vlnv

end RegMap
