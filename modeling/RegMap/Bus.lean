import RegMap.Verilog.Document

/-!
# The bus interface

Every wrapper is an AHB3-Lite slave and instantiates the same register engine.
-/

namespace RegMap.Bus

open Verilog

/-- The register engine that every wrapper instantiates. -/
def engine : String := "ahb3lite_csr"

/-- The clock of wrapper and engine. -/
def clock : String := "CLK"

/-- The reset of wrapper and engine. -/
def reset : String := "RESETn"

/-- A signal of the bus. -/
structure Signal where
  ident : String
  direction : Direction
  width : UInt32
deriving DecidableEq

/-- The slave's signals, those that the master drives first. -/
def signals : List Signal :=
  [⟨"HSEL", .input, 1⟩, ⟨"HADDR", .input, 32⟩, ⟨"HWDATA", .input, 32⟩, ⟨"HSIZE", .input, 3⟩,
    ⟨"HBURST", .input, 3⟩, ⟨"HPROT", .input, 4⟩, ⟨"HTRANS", .input, 2⟩, ⟨"HWRITE", .input, 1⟩,
    ⟨"HREADY", .input, 1⟩, ⟨"HRDATA", .output, 32⟩, ⟨"HRESP", .output, 1⟩,
    ⟨"HREADYOUT", .output, 1⟩]

/-- The port that carries a bus signal. -/
def Signal.port (signal : Signal) : PortDeclaration :=
  { ident := signal.ident, direction := signal.direction, width := signal.width }

/-- Clock and reset. -/
def systemPorts : List PortDeclaration :=
  [{ ident := clock, direction := .input, width := 1 },
    { ident := reset, direction := .input, width := 1 }]

/-- The connections of clock and reset. They are shared by the whole design. -/
def systemConnections : List Connection :=
  [.direct clock, .direct reset]

/-- What a bus signal is called outside the module. -/
def outerName (instanceName : Option String) (signal : Signal) : String :=
  match instanceName with
  | some name => s!"{name}_{signal.ident}"
  | none => signal.ident

/-- The connections of the bus. Those of a named instance carry its name. -/
def connections (instanceName : Option String) : List Connection :=
  signals.map fun signal => ⟨signal.ident, outerName instanceName signal⟩

end RegMap.Bus
