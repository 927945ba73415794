import Mathlib.Data.List.Forall2
import RegMap.Proofs.History
import RegMap.Template

/-!
# The template fits the wrapper

The wrapper and its template are rendered apart: one declares ports, in three groups, and
the other declares signals and connects ports, in another order of the groups.

* `SignalDeclaration.Fits` is what a signal has in common with the port that it is
  connected to.
* `Template.Instantiates` says what the template's instance connects, in terms of the ports
  that the wrapper declares.
* `RegisterMap.instantiates_changed`: this holds of every map, packed or not.
-/

namespace RegMap

open Verilog

/-- A signal that can be connected to a port: it has the port's name, width and depth, and
its declaration reads like that of the port. -/
structure Verilog.SignalDeclaration.Fits (signal : SignalDeclaration) (port : PortDeclaration) :
    Prop where
  net_eq : signal.net = .logic
  ident_eq : signal.ident = port.ident
  width_eq : signal.width = port.width
  depth_eq : signal.depth = port.depth
  text_eq : ∃ shape, port.text = directionText port.direction ++ " wire " ++ shape ∧
    signal.text = Net.logic.keyword ++ " " ++ shape ++ ";"

/-- The net of the parent design that belongs to a bus signal.  An instance without a name
shares the nets of the bus. -/
def Bus.outerNet (instanceName : String) (signal : Bus.Signal) : String :=
  if instanceName = "" then signal.ident else instanceName ++ "_" ++ signal.ident

namespace Template

/-- The text of the template is that of a document with one instance, which is of the wrapper.
It connects each of the wrapper's ports once and nothing else: clock, reset and field ports to
the nets of their own names, and the bus to the nets of the named instance.  The declared
signals fit the field ports, one by one. -/
structure Instantiates (map : RegisterMap) (instanceName : String) (inst : Instance)
    (fieldPorts : List PortDeclaration) : Prop where
  text_eq : render map = (document map).includeText
  instances_eq : (document map).instances = [inst]
  module_eq : Wrapper.render map = (Wrapper.document map).moduleText inst.definition
  parameters_eq : inst.parameters = []
  ports_eq : (Wrapper.document map).ports =
    Bus.systemPorts ++ fieldPorts ++ Bus.signals.map (·.port)
  perm_names : (inst.ports.map (·.name)).Perm ((Wrapper.document map).ports.map (·.ident))
  signals_fit : List.Forall₂ SignalDeclaration.Fits (document map).signals fieldPorts
  perm_ports : inst.ports.Perm
    (Bus.systemPorts.map (fun port => .direct port.ident) ++
      fieldPorts.map (fun port => .direct port.ident) ++
      Bus.signals.map fun signal => ⟨signal.ident, Bus.outerNet instanceName signal⟩)

/-- The signal for a field port fits the wrapper's declaration of the port. -/
theorem fits_signal (port : Port) : (signal port).Fits (Wrapper.portDeclaration port) := by
  refine ⟨rfl, rfl, rfl, rfl, ?_⟩
  refine ⟨vectorRange (UInt32.ofNat port.width.toNat) ++ port.ident ++ arrayRange port.depth?,
    ?_, ?_⟩
  · simp [PortDeclaration.text, Wrapper.portDeclaration, toString, String.append_assoc]
  · simp [SignalDeclaration.text, signal, toString, String.append_assoc]

/-- The signals of the template fit the field ports, in order. -/
theorem forall₂_fits (map : RegisterMap) :
    List.Forall₂ SignalDeclaration.Fits (document map).signals
      ((Wrapper.fieldPorts map).map Wrapper.portDeclaration) := by
  rw [document, List.forall₂_map_left_iff, List.forall₂_map_right_iff, List.forall₂_same]
  exact fun port _ => fits_signal port

/-- The bus of an instance is connected to the nets that carry its name. -/
theorem connections_eq {map : RegisterMap} {given : Option String}
    (h : map.instanceName = given.filter (!·.isEmpty)) :
    Bus.connections map.instanceName =
      Bus.signals.map fun signal => ⟨signal.ident, Bus.outerNet (given.getD "") signal⟩ := by
  refine List.map_congr_left fun signal _ => ?_
  rw [h]
  cases given with
  | none => rfl
  | some name =>
    by_cases hname : name = ""
    · simp [hname, Option.filter, Bus.outerName, Bus.outerNet]
    · simp [hname, Option.filter, Bus.outerName, Bus.outerNet, toString]

/-- The instance connects the groups of the wrapper's ports in an order of its own. -/
theorem perm_ports_wrapper {map : RegisterMap} {given : Option String}
    (h : map.instanceName = given.filter (!·.isEmpty)) :
    (wrapper map).ports.Perm
      (Bus.systemPorts.map (fun port => .direct port.ident) ++
        ((Wrapper.fieldPorts map).map Wrapper.portDeclaration).map
          (fun port => .direct port.ident) ++
        Bus.signals.map fun signal => ⟨signal.ident, Bus.outerNet (given.getD "") signal⟩) := by
  have hfields : ((Wrapper.fieldPorts map).map Wrapper.portDeclaration).map
        (fun port => Connection.direct port.ident) =
      (Wrapper.fieldPorts map).map fun port => .direct port.ident := by
    rw [List.map_map]
    rfl
  rw [hfields, ← connections_eq h, wrapper, List.append_assoc, List.append_assoc]
  exact List.perm_append_comm.append_left _

theorem instantiates_wrapper {map : RegisterMap} {given : Option String}
    (h : map.instanceName = given.filter (!·.isEmpty)) :
    Instantiates map (given.getD "") (wrapper map)
      ((Wrapper.fieldPorts map).map Wrapper.portDeclaration) where
  text_eq := rfl
  instances_eq := rfl
  module_eq := rfl
  parameters_eq := rfl
  ports_eq := rfl
  perm_names := by
    have hnames := (perm_ports_wrapper h).map (·.name)
    simpa [Wrapper.document, Wrapper.ports, Connection.direct, Bus.Signal.port,
      Function.comp_def] using hnames
  signals_fit := forall₂_fits map
  perm_ports := perm_ports_wrapper h

end Template

namespace RegisterMap

/-- No change renames the instance of a map. -/
theorem instanceName_change (map : RegisterMap) (change : Change) :
    (map.change change).instanceName = map.instanceName := by
  cases change with
  | add field => rfl
  | addAll fields => exact map.instanceName_addFields fields
  | pack palette =>
    simp only [RegisterMap.change, pack]
    split <;> rfl

theorem instanceName_changed (map : RegisterMap) (changes : List Change) :
    (map.changed changes).instanceName = map.instanceName := by
  induction changes using List.reverseRecOn with
  | nil => rfl
  | append_singleton changes change ih =>
    rw [changed_append_singleton, instanceName_change, ih]

/-- Whatever was done to a new map, its template instantiates its wrapper.  An instance that
was given no name, or an empty one, has none. -/
theorem instantiates_changed (vlnv : Vlnv) (given : Option String) (changes : List Change) :
    ∃ inst fieldPorts, Template.Instantiates ((new vlnv given).changed changes)
      (given.getD "") inst fieldPorts :=
  ⟨_, _, Template.instantiates_wrapper ((new vlnv given).instanceName_changed changes)⟩

end RegisterMap

end RegMap
