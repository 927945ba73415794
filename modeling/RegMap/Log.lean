import RegMap.Layout
import RegMap.Vlnv

/-!
# Log entries

What happens while a map is packed, validated and written can be followed in a
log.
-/

namespace RegMap

/-- How much an entry matters. -/
inductive LogLevel where
  | debug
  | info
  | warn
deriving DecidableEq

/-- The name of a level in the log. -/
def LogLevel.name : LogLevel → String
  | debug => "DEBUG"
  | info => "INFO"
  | warn => "WARN"

/-- Something that happened. -/
inductive LogEntry where
  | allocated (access : Access) (address : UInt32)
  | placed (name : String) (address : UInt32) (msb lsb : UInt8)
  | noFields (vlnv : String)
  | wrote (path : String)
deriving DecidableEq

namespace LogEntry

/-- The level at which an entry is logged. -/
def level : LogEntry → LogLevel
  | allocated .. | placed .. => .debug
  | wrote .. => .info
  | noFields .. => .warn

/-- The text of an entry. -/
def message : LogEntry → String
  | allocated access address =>
    s!"allocated {access.keyword} register at {Address.text address}"
  | placed name address msb lsb => s!"placed {name} at {Address.text address}[{msb}:{lsb}]"
  | noFields vlnv => s!"model {vlnv} declares no fields"
  | wrote path => s!"wrote {path}"

/-- The entry as a line of the log. -/
def text (entry : LogEntry) : String :=
  s!"{entry.level.name} {entry.message}"

end LogEntry

/-- How a register came to be: it was allocated, then filled. -/
def Register.log (register : Register) : List LogEntry :=
  .allocated register.access register.address
    :: register.occupants.map fun occupant =>
      .placed occupant.replica.name register.address occupant.msb occupant.offset

/-- How a layout came to be. -/
def Layout.log (layout : Layout) : List LogEntry :=
  layout.registers.toList.flatMap Register.log

end RegMap
