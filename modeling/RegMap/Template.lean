import RegMap.Wrapper

/-!
# The instantiation template

The template is included by the parent design. It declares a signal for every
field port of the wrapper and instantiates the wrapper with them.
-/

namespace RegMap.Template

open Verilog

/-- The signal that is connected to a field's port. -/
def signal (port : Port) : SignalDeclaration :=
  ⟨.logic, port.ident, UInt32.ofNat port.width.toNat, port.depth?⟩

/-- The wrapper's instance. -/
def wrapper (map : RegisterMap) : Instance where
  definition := map.vlnv.moduleName
  ident := s!"{map.vlnv.moduleName}0"
  parameters := []
  ports :=
    Bus.systemConnections ++ Bus.connections map.instanceName ++
    (Wrapper.fieldPorts map).map fun port => .direct port.ident

/-- The lines at the top of the template. -/
def header (map : RegisterMap) : List String :=
  [s!"{map.vlnv.moduleName}: instantiation template for {map.vlnv.text}"]

/-- The template of a map. -/
def document (map : RegisterMap) : Document where
  header := header map
  signals := (Wrapper.fieldPorts map).map signal
  instances := [wrapper map]

/-- The text of the template. -/
def render (map : RegisterMap) : String :=
  (document map).includeText

end RegMap.Template
