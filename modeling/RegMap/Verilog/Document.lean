import RegMap.Access

/-!
# Verilog documents

A document collects header lines and items: ports, signals, assignments and
instances. It is written in sections of a fixed order, so its text depends only
on the order of the items of each kind. It can be written as a module, or
without one for inclusion in another.
-/

namespace RegMap.Verilog

/-- One step of indentation. -/
def indentation : String := "    "

/-- The range of a vector's bits. A vector of at most one bit has none. -/
def vectorRange (width : UInt32) : String :=
  if width > 1 then s!"[{width - 1}:0] " else ""

/-- The range of an array's elements. -/
def arrayRange : Option UInt32 → String
  | some depth => s!" [{depth}]"
  | none => ""

/-- A port of the module. With a depth it is an array. -/
structure PortDeclaration where
  ident : String
  direction : Direction
  width : UInt32
  depth : Option UInt32 := none
deriving DecidableEq

/-- The kinds of signals. -/
inductive Net where
  | wire
  | logic
deriving DecidableEq

/-- A signal of the module. With a depth it is an array. -/
structure SignalDeclaration where
  net : Net
  ident : String
  width : UInt32
  depth : Option UInt32 := none
deriving DecidableEq

/-- A continuous assignment. -/
structure Assignment where
  target : String
  source : String
deriving DecidableEq

/-- A parameter or port by name, and what it is connected to. -/
structure Connection where
  name : String
  value : String
deriving DecidableEq

/-- The connection of a port to the signal of the same name. -/
def Connection.direct (name : String) : Connection :=
  ⟨name, name⟩

/-- An instance of another module. -/
structure Instance where
  definition : String
  ident : String
  parameters : List Connection
  ports : List Connection
deriving DecidableEq

/-- Anything that a document can hold. -/
inductive Item where
  | port (port : PortDeclaration)
  | signal (signal : SignalDeclaration)
  | assignment (assignment : Assignment)
  | inst (inst : Instance)
deriving DecidableEq

/-- Header lines, and the items of each kind in order. -/
structure Document where
  header : List String := []
  ports : List PortDeclaration := []
  signals : List SignalDeclaration := []
  assignments : List Assignment := []
  instances : List Instance := []
deriving DecidableEq

namespace Document

/-- The document with one more item of its kind. -/
def add (document : Document) : Item → Document
  | .port port => { document with ports := document.ports ++ [port] }
  | .signal signal => { document with signals := document.signals ++ [signal] }
  | .assignment assignment =>
    { document with assignments := document.assignments ++ [assignment] }
  | .inst inst => { document with instances := document.instances ++ [inst] }

/-- A document with the given header and items. -/
def ofItems (header : List String) (items : List Item) : Document :=
  items.foldl add { header }

end Document

/-! ## Text -/

/-- Directions are as wide as the longer one, so that ports line up. -/
def directionText : Direction → String
  | .input => "input "
  | .output => "output"

/-- A port as it stands in the module's heading. -/
def PortDeclaration.text (port : PortDeclaration) : String :=
  s!"{directionText port.direction} wire " ++
    vectorRange port.width ++ port.ident ++ arrayRange port.depth

/-- The word that declares a signal of the kind. -/
def Net.keyword : Net → String
  | wire => "wire"
  | logic => "logic"

/-- A signal as it is declared. -/
def SignalDeclaration.text (signal : SignalDeclaration) : String :=
  s!"{signal.net.keyword} " ++
    vectorRange signal.width ++ signal.ident ++ arrayRange signal.depth ++ ";"

/-- An assignment as a statement. -/
def Assignment.text (assignment : Assignment) : String :=
  s!"assign {assignment.target} = {assignment.source};"

/-- A connection as it stands in an instance. -/
def Connection.text (connection : Connection) : String :=
  s!".{connection.name}({connection.value})"

/-- Connections, each on a line of its own. -/
def connectionLines (indent : String) (connections : List Connection) : String :=
  ",\n".intercalate (connections.map fun c => s!"{indent}{indentation}{c.text}")

/-- The instance's parameters, if it has any. -/
def parameterText (indent : String) : List Connection → String
  | [] => ""
  | parameters => s!" #(\n{connectionLines indent parameters}\n{indent})"

/-- An instance with its connections, on lines of its own. -/
def Instance.text (indent : String) (inst : Instance) : String :=
  s!"{indent}{inst.definition}{parameterText indent inst.parameters} {inst.ident} (\n" ++
    s!"{connectionLines indent inst.ports}\n{indent});\n"

namespace Document

/-- The header as comments, with an empty line after them. -/
def headerText (document : Document) : String :=
  match document.header with
  | [] => ""
  | lines => String.join (lines.map fun line => s!"// {line}\n") ++ "\n"

/-- Lines that form a section, unless there are none. -/
def section? (indent : String) : List String → Option String
  | [] => none
  | lines => some (String.join (lines.map fun line => s!"{indent}{line}\n"))

/-- The sections after the ports: signals, assignments, and each instance. -/
def sections (indent : String) (document : Document) : List String :=
  (section? indent (document.signals.map (·.text))).toList ++
  (section? indent (document.assignments.map (·.text))).toList ++
  document.instances.map (·.text indent)

/-- The sections with an empty line between them. -/
def body (indent : String) (document : Document) : String :=
  "\n".intercalate (document.sections indent)

/-- The ports of the module's heading. -/
def portList (document : Document) : String :=
  match document.ports with
  | [] => ";\n"
  | ports =>
    " (\n" ++ ",\n".intercalate (ports.map fun port => indentation ++ port.text) ++ "\n);\n"

/-- The document as a module. -/
def moduleText (document : Document) (name : String) : String :=
  s!"{document.headerText}module {name}{document.portList}\n" ++
    s!"{document.body indentation}\nendmodule\n"

/-- The items without a module around them. Ports are left out. -/
def includeText (document : Document) : String :=
  document.headerText ++ document.body ""

end Document

end RegMap.Verilog
