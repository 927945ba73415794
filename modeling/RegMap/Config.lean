import RegMap.Config.Source
import RegMap.RegisterMap

/-!
# Configurations

A configuration identifies a core and declares the fields of its map:

```yaml
vlnv: acme:csr:uart_csr:1.0
parameters:
  instance: uart0
  registers:
    ctrl: {width: 8, type: rw}
    irq: {width: 1, type: w1c, count: 4}
```

The instance may be null, and so may the declaration of a field, which then has
the default properties. Every declaration is checked, so that all faulty ones are
told at once.
-/

namespace RegMap

open Yaml (Value)

/-- What a configuration describes. -/
structure Config where
  vlnv : Vlnv
  instanceName : Option String
  fields : List Field

namespace Config

/-- Why a configuration was refused. -/
inductive Refusal where
  | malformedText (fault : Yaml.Fault)
  | missingKey (key : String)
  | invalidKey (key expected : String)
  | malformedVlnv (malformed : Vlnv.Malformed)
  | invalidFields (diagnostics : Diagnostics)

/-- What is told when a configuration is refused. -/
def Refusal.message (palette : Palette) : Refusal → String
  | malformedText fault => s!"malformed configuration: {fault.message}"
  | missingKey key => s!"configuration is missing the required key \"{key}\""
  | invalidKey key expected => s!"configuration key \"{key}\" must be {expected}"
  | malformedVlnv malformed => malformed.message
  | invalidFields diagnostics => RegisterMap.invalidMessage palette diagnostics

/-! ## Fields -/

/-- A value as the property of a field. -/
def property : Value → Property
  | .number (.integer value) =>
    if Yaml.Number.fitsSigned value then .integer value else .other s!"the number {value}"
  | .number number => .other s!"the number {number.text}"
  | .text text => .text text
  | .null => .other "null"
  | .boolean value => .other s!"the boolean {value}"
  | .sequence _ => .other "a sequence"
  | .mapping _ => .other "a mapping"
  | .tagged .. => .other "a tagged value"

/-- A key as the name of a property. Keys that are no texts are named by what
they are. -/
def propertyKey (key : Value) : String :=
  match property key with
  | .integer value => toString value
  | .text text => text
  | .other kind => kind

/-- The properties that a value declares. Null declares none. -/
def properties? : Value → Option (List (String × Property))
  | .null => some []
  | .mapping entries => some (entries.map fun (key, value) => (propertyKey key, property value))
  | _ => none

/-- The field that a declaration makes, or what is wrong with it. -/
def field (palette : Palette) (ident : String) (declaration : Value) :
    Except Diagnostics Field :=
  match properties? declaration with
  | some properties => Field.ofProperties palette ident properties
  | none =>
    .error <| .ofList [(Finding.invalidProperty ident "a mapping of properties"
      (property declaration).describe).at palette (.field ident)]

/-- The fields that were declared well, and what is wrong with the others. -/
def declared (palette : Palette) (registers : List (String × Value)) :
    List Field × Diagnostics :=
  registers.foldl (fun (fields, diagnostics) (ident, declaration) =>
    match field palette ident declaration with
    | .ok field => (fields ++ [field], diagnostics)
    | .error faults => (fields, diagnostics ++ faults)) ([], .none)

/-- The declared fields, or everything that is wrong with the declarations. -/
def fieldsOf (palette : Palette) (registers : List (String × Value)) :
    Except Diagnostics (List Field) :=
  let (fields, diagnostics) := declared palette registers
  if diagnostics.isEmpty then .ok fields else .error diagnostics

/-! ## Configurations -/

/-- The name of the instance. -/
def instanceName? (parameters : List (Value × Value)) : Except Refusal (Option String) :=
  match Value.lookup? "instance" parameters with
  | none => .error (.missingKey "parameters.instance")
  | some .null => .ok none
  | some (.text name) => .ok (some name)
  | some _ => .error (.invalidKey "parameters.instance" "a string or null")

/-- The declarations of the fields by their names. -/
def registers (parameters : List (Value × Value)) : Except Refusal (List (String × Value)) :=
  match Value.lookup? "registers" parameters with
  | none => .error (.missingKey "parameters.registers")
  | some .null => .ok []
  | some value => (Source.declarations value).mapError .malformedText

/-- The configuration that a source describes. -/
def ofSource (palette : Palette) (source : Source) : Except Refusal Config := do
  let some text := source.vlnv | throw (.missingKey "vlnv")
  let vlnv ← (Vlnv.ofText text).mapError .malformedVlnv
  let some parameters := source.parameters | throw (.missingKey "parameters")
  let instanceName ← instanceName? parameters
  let registers ← registers parameters
  let fields ← (fieldsOf palette registers).mapError .invalidFields
  return ⟨vlnv, instanceName, fields⟩

/-- Reads a configuration. -/
def ofText (palette : Palette) (text : String) : Except Refusal Config := do
  let source ← (Source.ofText text).mapError .malformedText
  ofSource palette source

/-- The map that a configuration describes. It is not packed yet. -/
def toMap (config : Config) : RegisterMap :=
  (RegisterMap.new config.vlnv config.instanceName).addFields config.fields

end Config

end RegMap
