import RegMap.AccessVector
import RegMap.Log

/-!
# Register maps

A register map has an identifier, perhaps the name of its instance in the parent
design, and declared fields. It can be packed, which gives it a layout; it stays
packed until another field is declared. What a layout leaves behind is cleared
before the next one is made.
-/

namespace RegMap

/-- Declared fields and their layout, which places nothing until the map is packed.
Clearing the layout leaves just the declared fields, in order. -/
structure RegisterMap where
  vlnv : Vlnv
  instanceName : Option String
  fields : List Field
  layout : Layout
  isPacked : Bool
  cleared_layout : layout.cleared = .unpacked fields

namespace RegisterMap

/-- A map without fields. An empty instance name is none. -/
def new (vlnv : Vlnv) (instanceName : Option String) : RegisterMap where
  vlnv := vlnv
  instanceName := instanceName.filter (!·.isEmpty)
  fields := []
  layout := .unpacked []
  isPacked := false
  cleared_layout := Layout.cleared_unpacked []

/-- The map without its layout. -/
def unpack (map : RegisterMap) : RegisterMap :=
  { map with
    layout := map.layout.cleared
    isPacked := false
    cleared_layout := by rw [map.cleared_layout, Layout.cleared_unpacked] }

/-- Whatever the map was like, unpacking it leaves just the declared fields. -/
theorem layout_unpack (map : RegisterMap) : map.unpack.layout = .unpacked map.fields :=
  map.cleared_layout

/-- The map with one more field. It has to be packed again. -/
def addField (map : RegisterMap) (field : Field) : RegisterMap :=
  { map.unpack with
    fields := map.fields ++ [field]
    layout := map.unpack.layout.declare ⟨map.fields.length, field⟩
    cleared_layout := by
      rw [map.layout_unpack, Layout.declare_unpacked, Layout.cleared_unpacked] }

/-- The map with more fields, in order. -/
def addFields (map : RegisterMap) (fields : List Field) : RegisterMap :=
  fields.foldl addField map

@[simp] theorem fields_addField (map : RegisterMap) (field : Field) :
    (map.addField field).fields = map.fields ++ [field] := rfl

@[simp] theorem fields_addFields (map : RegisterMap) (fields : List Field) :
    (map.addFields fields).fields = map.fields ++ fields := by
  unfold addFields
  induction fields generalizing map with
  | nil => simp
  | cons field rest ih => simp [ih]

@[simp] theorem vlnv_addFields (map : RegisterMap) (fields : List Field) :
    (map.addFields fields).vlnv = map.vlnv := by
  unfold addFields
  induction fields generalizing map with
  | nil => rfl
  | cons field rest ih => exact ih (map.addField field)

@[simp] theorem instanceName_addFields (map : RegisterMap) (fields : List Field) :
    (map.addFields fields).instanceName = map.instanceName := by
  unfold addFields
  induction fields generalizing map with
  | nil => rfl
  | cons field rest ih => exact ih (map.addField field)

/-! ## Views -/

/-- The declared fields in visiting order: that of their declaration until the map
is packed. -/
def visited (map : RegisterMap) : List Declaration :=
  map.layout.visited

/-- The registers by ascending address. -/
def registers (map : RegisterMap) : List Register :=
  map.layout.registers.toList

/-- Where the replicas of a field are, in order. -/
def placements (map : RegisterMap) (declaration : Declaration) : List Placement :=
  map.layout.placements declaration

/-- The slots of a field, in order of its replicas. An unpacked map has none. -/
def slots (map : RegisterMap) (declaration : Declaration) : List Slot :=
  map.layout.slotsOf declaration.index

/-- The first field that was declared under a name. -/
def find? (map : RegisterMap) (ident : String) : Option Declaration :=
  (Declaration.ofFields map.fields).find? fun declaration => declaration.field.ident == ident

/-- How many fields are declared. -/
def fieldCount (map : RegisterMap) : Nat :=
  map.fields.length

/-- How many registers there are. An unpacked map has none. -/
def registerCount (map : RegisterMap) : Nat :=
  map.registers.length

/-- How many replicas the fields have together. -/
def replicaCount (map : RegisterMap) : Nat :=
  (map.fields.map (·.count.toNat)).foldr (· + ·) 0

/-- The access kinds of the registers, for the register engine. -/
def accessVector (map : RegisterMap) : AccessVector :=
  ⟨map.registers.map (·.access)⟩

/-! ## Validity -/

/-- The fields that were declared under the name of an earlier field, and the
faults of every field, in the order of declaration. -/
def fieldDiagnostics (palette : Palette) (fields : List Field) : List Diagnostic :=
  (Declaration.ofFields fields).flatMap fun ⟨index, field⟩ =>
    let repeated := (fields.take index).any (·.ident = field.ident)
    ((if repeated then [Finding.duplicateField field.ident] else []) ++ field.faults).map
      (·.at palette (.field field.ident))

/-- What is wrong with the declared fields. -/
def validateDeclarations (palette : Palette) (map : RegisterMap) : Diagnostics :=
  let none := if map.fields.isEmpty then [Finding.empty.at palette .root] else []
  .ofList (none ++ fieldDiagnostics palette map.fields)

/-- What is wrong with the address of the register at an index. -/
def validateAddress (palette : Palette) (register : Register) (index : Nat) :
    List Diagnostic :=
  if register.address = Address.ofIndex index then
    []
  else
    [(Finding.addressGap register.address (Address.ofIndex index)).at palette
      (.register register.address)]

/-- What is wrong with the registers and placements of a layout. -/
def validateLayout (palette : Palette) (layout : Layout) : List Diagnostic :=
  (layout.registers.toList.zipIdx.flatMap fun (register, index) =>
    validateAddress palette register index ++ (register.validate palette .root).toList) ++
  layout.visited.flatMap fun ⟨index, field⟩ =>
    (field.validatePlacement palette (layout.slotsOf index).length (.field field.ident)).toList

/-- What is wrong with the map: with its declarations and, once packed, with its
layout. -/
def validate (palette : Palette) (map : RegisterMap) : Diagnostics :=
  if map.isPacked then
    (map.validateDeclarations palette).insertAll (validateLayout palette map.layout)
  else
    map.validateDeclarations palette

/-- What validation leaves in the log: packed maps without fields are odd. -/
def validationLog (map : RegisterMap) : List LogEntry :=
  if map.isPacked && map.fields.isEmpty then [.noFields map.vlnv.text] else []

/-! ## Packing -/

/-- The map with its fields placed, whatever its layout was. -/
def allocate (map : RegisterMap) : RegisterMap :=
  { map.unpack with
    layout := map.unpack.layout.allocate
    isPacked := true
    cleared_layout := by
      rw [map.layout_unpack]
      exact Layout.cleared_ofFields map.fields }

theorem layout_allocate (map : RegisterMap) : map.allocate.layout = .ofFields map.fields :=
  congrArg Layout.allocate map.layout_unpack

/-- The map with its layout, or without any and what is wrong with its fields. -/
def pack (palette : Palette) (map : RegisterMap) : RegisterMap × Except Diagnostics Unit :=
  let diagnostics := map.unpack.validateDeclarations palette
  if diagnostics.errors = 0 then
    (map.allocate, .ok ())
  else
    (map.unpack, .error diagnostics)

/-- Packing never changes what is declared. -/
@[simp] theorem fields_pack (palette : Palette) (map : RegisterMap) :
    (map.pack palette).1.fields = map.fields := by
  unfold pack
  dsimp only
  split <;> rfl

/-- What is said of a map that cannot be packed. -/
def invalidMessage (palette : Palette) (diagnostics : Diagnostics) : String :=
  s!"register map validation failed\n{diagnostics.report palette}"

end RegisterMap

end RegMap
