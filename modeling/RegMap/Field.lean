import RegMap.Diagnostic.Set

/-!
# Fields

A field is one declared bit field, or an array of equal ones: its `count` tells
how many replicas it has. A field is declared by properties; properties that it
does not mention keep their defaults, which make it a full register that
software may read and write.
-/

namespace RegMap

/-- A declared field. -/
structure Field where
  ident : String
  width : UInt8
  access : Access
  count : UInt32 := 1
deriving DecidableEq

/-- A property value as a declaration gives it. -/
inductive Property where
  | integer (value : Int)
  | text (value : String)
  /-- Any other value, by what it is, for instance `a sequence`. -/
  | other (kind : String)
deriving DecidableEq

/-- The value as messages show it. -/
def Property.describe : Property → String
  | integer value => s!"integer {value}"
  | text value => s!"text \"{value}\""
  | other kind => kind

/-! ## Declarations -/

/-- What a valid property sets. -/
inductive Attribute where
  | width (value : UInt8)
  | access (value : Access)
  | count (value : UInt32)
deriving DecidableEq

namespace Attribute

/-- The keys that a declaration may use. -/
def keys : List String := ["width", "type", "count"]

/-- The attribute that a property sets: a width fits a register, an access kind
is named by its keyword, and a count is positive and fits 32 bits. -/
def ofProperty : String → Property → Except Finding Attribute
  | "width", .integer value =>
    if value > registerWidth then
      .error (.widthExceeded value registerWidth)
    else if value < 1 then
      .error (.zeroWidth value registerWidth)
    else
      .ok (.width (UInt8.ofNat value.toNat))
  | "type", .text keyword =>
    match Access.ofKeyword? keyword with
    | some kind => .ok (.access kind)
    | none => .error (.invalidAccess keyword)
  | "count", .integer value =>
    if 1 ≤ value ∧ value < UInt32.size then
      .ok (.count (UInt32.ofNat value.toNat))
    else
      .error (.zeroCount value)
  | "width", found => .error (.invalidProperty "width" "an integer" found.describe)
  | "count", found => .error (.invalidProperty "count" "an integer" found.describe)
  | "type", found => .error (.invalidProperty "type" "an access type" found.describe)
  | key, _ => .error (.unknownProperty key keys)

end Attribute

namespace Field

/-- The field that a declaration without properties makes. -/
def default (ident : String) : Field :=
  ⟨ident, UInt8.ofNat registerWidth, .readWrite, 1⟩

/-- The field with one attribute set. -/
def set (field : Field) : Attribute → Field
  | .width value => { field with width := value }
  | .access value => { field with access := value }
  | .count value => { field with count := value }

/-- The attributes that a declaration sets, in order. -/
def attributes (properties : List (String × Property)) : List Attribute :=
  properties.filterMap fun (key, value) => (Attribute.ofProperty key value).toOption

/-- What is wrong with a declaration, property by property. -/
def findings (properties : List (String × Property)) : List Finding :=
  properties.filterMap fun (key, value) =>
    match Attribute.ofProperty key value with
    | .error finding => some finding
    | .ok _ => none

/-- The field that properties declare, or everything that is wrong with them. A
property that is given again replaces what it set before. -/
def ofProperties (palette : Palette) (ident : String) (properties : List (String × Property)) :
    Except Diagnostics Field :=
  match findings properties with
  | [] => .ok ((attributes properties).foldl set (default ident))
  | faults => .error (.ofList (faults.map (·.at palette (.field ident))))

/-! ## Validity -/

/-- What keeps a field from being laid out: a width that does not fit a
register, or no replicas at all. -/
def faults (field : Field) : List Finding :=
  (if field.width.toNat > registerWidth then
    [.widthExceeded field.width.toNat registerWidth] else []) ++
  (if field.width = 0 then [.zeroWidth field.width.toNat registerWidth] else []) ++
  (if field.count = 0 then [.zeroCount field.count.toNat] else [])

/-- The faults of a field, told about a place. -/
def validate (palette : Palette) (field : Field) (context : Context) : Diagnostics :=
  .ofList (field.faults.map (·.at palette context))

/-- What is wrong with the placement of a field, given how many of its replicas
are placed. -/
def validatePlacement (palette : Palette) (field : Field) (placed : Nat) (context : Context) :
    Diagnostics :=
  if placed = field.count.toNat then
    .none
  else
    .ofList [(Finding.unplaced field.ident placed field.count.toNat).at palette context]

/-! ## Replicas and ports -/

/-- Whether the field is an array of replicas. -/
def isReplicated (field : Field) : Bool :=
  field.count > 1

/-- The name of one replica in listings and messages. -/
def replicaName (field : Field) (number : UInt32) : String :=
  if field.isReplicated then s!"{field.ident}[{number}]" else field.ident

end Field

/-- A port that the wrapper has for a field. -/
structure Port where
  ident : String
  direction : Direction
  width : UInt8
  count : UInt32
deriving DecidableEq

namespace Port

/-- The depth of the port's array. A port with one element is no array. -/
def depth? (port : Port) : Option UInt32 :=
  if port.count > 1 then some port.count else none

/-- One element of the port: the port itself unless it is an array. -/
def element (port : Port) (number : UInt32) : String :=
  if port.count > 1 then s!"{port.ident}[{number}]" else port.ident

end Port

namespace Field

/-- The name of the field's port in a direction. A field with a port in each
direction tells them apart by their endings. -/
def portName (field : Field) (direction : Direction) : String :=
  if field.access.isBidirectional then field.ident ++ direction.suffix else field.ident

/-- The field's ports, one for each of its directions. -/
def ports (field : Field) : List Port :=
  field.access.directions.map fun direction =>
    ⟨field.portName direction, direction, field.width, field.count⟩

end Field

end RegMap
