import RegMap.RegisterMap

/-!
# The listing of a map

A listing has one line for each placed replica. A register is named on the line
of its first occupant; the lines of the others are indented instead.

```text
ro:0x0000:	status:0:4
rw:0x0004:	ctrl:0:8
		mode:8:2
```
-/

namespace RegMap.Listing

/-- An occupant's name, offset and width. -/
def entry (occupant : Occupant) : String :=
  s!"{occupant.replica.name}:{occupant.offset}:{occupant.width}"

/-- The lines of one register. -/
def lines (register : Register) : List String :=
  match register.occupants with
  | [] => []
  | first :: rest =>
    s!"{register.text}\t{entry first}" :: rest.map fun occupant => s!"\t\t{entry occupant}"

/-- The lines of a map's registers, each ended by a line break. -/
def render (map : RegisterMap) : String :=
  String.join ((map.registers.flatMap lines).map (· ++ "\n"))

end RegMap.Listing
