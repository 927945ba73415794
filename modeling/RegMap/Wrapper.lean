import RegMap.Bus
import RegMap.RegisterMap

/-!
# The wrapper module

The wrapper gives every field its ports and connects them to the words of the
register engine: user logic drives `csri`, the engine drives `csro`, and each
placed replica owns its bits in one word of them.
-/

namespace RegMap

open Verilog

/-- The word arrays of the register engine. -/
inductive WordArray where
  /-- Words that user logic drives. -/
  | into
  /-- Words that the engine drives. -/
  | outOf
deriving DecidableEq

/-- The name of an array's signal. -/
def WordArray.ident : WordArray → String
  | into => "csri"
  | outOf => "csro"

/-- The array through which a port of a direction reaches the engine. -/
def Direction.words : Direction → WordArray
  | input => .into
  | output => .outOf

/-- A field port's element and the placed replica that it stands for. -/
structure Drive where
  port : Port
  placement : Placement
deriving DecidableEq

namespace Drive

/-- The element of the port. -/
def element (drive : Drive) : String :=
  drive.port.element drive.placement.replica

/-- The bits of the engine's word. -/
def bits (drive : Drive) : String :=
  s!"{drive.port.direction.words.ident}[{drive.placement.word}]{drive.placement.slice}"

/-- An input drives the engine's bits, an output is driven by them. -/
def assignment (drive : Drive) : Assignment :=
  match drive.port.direction with
  | .input => ⟨drive.bits, drive.element⟩
  | .output => ⟨drive.element, drive.bits⟩

end Drive

namespace Wrapper

/-- The ports of all fields, in visiting order. -/
def fieldPorts (map : RegisterMap) : List Port :=
  map.visited.flatMap (·.field.ports)

/-- What every placed replica connects, field by field. -/
def drives (map : RegisterMap) : List Drive :=
  map.visited.flatMap fun declaration =>
    (map.placements declaration).flatMap fun placement =>
      declaration.field.ports.map fun port => ⟨port, placement⟩

/-- A field's port in the module's heading. -/
def portDeclaration (port : Port) : PortDeclaration :=
  ⟨port.ident, port.direction, UInt32.ofNat port.width.toNat, port.depth?⟩

/-- All ports of the module: clock and reset, fields, and bus. -/
def ports (map : RegisterMap) : List PortDeclaration :=
  Bus.systemPorts ++ (fieldPorts map).map portDeclaration ++ Bus.signals.map (·.port)

/-- A word array, as deep as the map has registers. -/
def wordSignal (map : RegisterMap) (words : WordArray) : SignalDeclaration :=
  ⟨.wire, words.ident, UInt32.ofNat registerWidth, some (UInt32.ofNat map.registerCount)⟩

/-- The register engine, made for the map's registers. -/
def engine (map : RegisterMap) : Instance where
  definition := Bus.engine
  ident := s!"u_{map.vlnv.moduleName}"
  parameters := [⟨"CNT", toString map.registerCount⟩]
  ports :=
    Bus.systemConnections ++
    [⟨"REGIN", WordArray.into.ident⟩, ⟨"REGOUT", WordArray.outOf.ident⟩,
      ⟨"ACCESS", map.accessVector.text⟩] ++
    Bus.connections none

/-- The lines at the top of the wrapper. -/
def header (map : RegisterMap) : List String :=
  [s!"{map.vlnv.moduleName}: register map wrapper for {map.vlnv.text}",
    "Generated by csrgen. Do not edit."]

/-- The wrapper of a map. -/
def document (map : RegisterMap) : Document where
  header := header map
  ports := ports map
  signals := [wordSignal map .into, wordSignal map .outOf]
  assignments := (drives map).map (·.assignment)
  instances := [engine map]

/-- The text of the wrapper. -/
def render (map : RegisterMap) : String :=
  (document map).moduleText map.vlnv.moduleName

end Wrapper

end RegMap
