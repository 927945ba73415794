import RegMap.Proofs.Headings

/-!
# Verilog texts line by line

A module is written piece by piece, with separators between some of the pieces.  Here it is a list
of lines, each of which is written by one item or belongs to the frame around the items.

* `Text.unlines_injective`: lines without line feeds are told by their text.
* `Verilog.commaLines` are the lines of a list with commas in between, and
  `Verilog.Instance.lines` those of an instance.
* `Verilog.Document.moduleText_eq_unlines`: a module is the text of `Verilog.Document.moduleLines`.
-/

namespace RegMap

/-! ## Lines as text -/

namespace Text

/-- Lines as a text, with a line feed behind each. -/
def unlines (lines : List String) : String :=
  String.join (lines.map (· ++ "\n"))

@[simp] theorem unlines_nil : unlines [] = "" := rfl

@[simp] theorem unlines_cons (line : String) (rest : List String) :
    unlines (line :: rest) = line ++ "\n" ++ unlines rest := by
  simp [unlines]

@[simp] theorem unlines_append (front back : List String) :
    unlines (front ++ back) = unlines front ++ unlines back := by
  simp [unlines]

/-- The lines of a text that ends with a line feed, with an empty one behind it. -/
theorem lines_unlines {text : List String} (h : ∀ line ∈ text, '\n' ∉ line.toList) :
    lines (unlines text) = text ++ [""] := by
  induction text with
  | nil => exact lines_of_notMem (by simp)
  | cons line rest ih =>
    rw [List.forall_mem_cons] at h
    rw [unlines_cons, lines_append, ih h.2, lines_of_notMem h.1]
    rfl

theorem unlines_injective {left right : List String} (hleft : ∀ line ∈ left, '\n' ∉ line.toList)
    (hright : ∀ line ∈ right, '\n' ∉ line.toList) (h : unlines left = unlines right) :
    left = right := by
  have hlines := congrArg lines h
  rw [lines_unlines hleft, lines_unlines hright] at hlines
  exact List.append_cancel_right hlines

/-- Blocks of lines with an empty line between them, and one behind the last. -/
theorem intercalate_unlines {blocks : List (List String)} (h : blocks ≠ []) :
    "\n".intercalate (blocks.map unlines) ++ "\n" =
      unlines (blocks.flatMap (· ++ [""])) := by
  induction blocks with
  | nil => exact absurd rfl h
  | cons block rest ih =>
    cases rest with
    | nil => simp
    | cons next rest =>
      have hrest := ih (List.cons_ne_nil _ _)
      rw [List.map_cons] at hrest
      rw [List.map_cons, List.map_cons, String.intercalate_cons_cons, String.append_assoc, hrest,
        List.flatMap_cons]
      simp [String.append_assoc]

end Text

namespace Verilog

open Text (unlines)

/-! ## Items -/

/-- The lines of a list with commas in between.  A list without entries has an empty line. -/
def commaLines : List String → List String
  | [] => [""]
  | [entry] => [entry]
  | entry :: next :: rest => (entry ++ ",") :: commaLines (next :: rest)

theorem unlines_commaLines (entries : List String) :
    unlines (commaLines entries) = ",\n".intercalate entries ++ "\n" := by
  fun_induction commaLines entries with
  | case1 => simp
  | case2 entry => simp
  | case3 entry next rest ih =>
    rw [Text.unlines_cons, ih, String.intercalate_cons_cons]
    simp [String.append_assoc]

/-- A signal as a line of a module. -/
def SignalDeclaration.line (signal : SignalDeclaration) : String :=
  indentation ++ signal.text

/-- An assignment as a line of a module. -/
def Assignment.line (assignment : Assignment) : String :=
  indentation ++ assignment.text

/-- A port as an entry of a module's heading. -/
def PortDeclaration.line (port : PortDeclaration) : String :=
  indentation ++ port.text

/-- A connection as an entry of an instance. -/
def Connection.line (connection : Connection) : String :=
  indentation ++ indentation ++ connection.text

/-- The lines of an instance in a module up to its ports. -/
def Instance.opening (inst : Instance) : List String :=
  match inst.parameters with
  | [] => [indentation ++ inst.definition ++ " " ++ (inst.ident ++ " (")]
  | parameters =>
    (indentation ++ inst.definition ++ " " ++ "#(") :: (commaLines (parameters.map (·.line)) ++
      [indentation ++ ")" ++ (" " ++ inst.ident ++ " (")])

/-- The lines of an instance in a module. -/
def Instance.lines (inst : Instance) : List String :=
  inst.opening ++ (commaLines (inst.ports.map (·.line)) ++ [indentation ++ ")" ++ ";"])

theorem Instance.text_eq_unlines (inst : Instance) :
    inst.text indentation = unlines inst.lines := by
  have hconnections (connections : List Connection) :
      connectionLines indentation connections ++ "\n" =
        unlines (commaLines (connections.map (·.line))) := by
    rw [unlines_commaLines]
    rfl
  cases hparameters : inst.parameters with
  | nil =>
    simp [Instance.text, lines, opening, parameterText, hparameters, ← hconnections, toString,
      String.append_assoc]
  | cons parameter rest =>
    simp only [Instance.text, lines, opening, parameterText, hparameters, toString,
      Text.unlines_cons, Text.unlines_append, ← hconnections, String.append_assoc]
    rfl

namespace Document

/-! ## Modules -/

/-- The lines above the heading of a module. -/
def headerLines (document : Document) : List String :=
  match document.header with
  | [] => []
  | header => header.map ("// " ++ ·) ++ [""]

/-- The lines of a module's heading. -/
def headingLines (document : Document) (name : String) : List String :=
  match document.ports with
  | [] => ["module " ++ name ++ ";"]
  | ports => ("module " ++ name ++ " (") :: (commaLines (ports.map (·.line)) ++ [");"])

/-- Lines that form a section, unless there are none. -/
def blockOf : List String → List (List String)
  | [] => []
  | lines => [lines]

/-- The sections of a module's body. -/
def blocks (document : Document) : List (List String) :=
  blockOf (document.signals.map (·.line)) ++ blockOf (document.assignments.map (·.line)) ++
    document.instances.map (·.lines)

/-- The lines behind the last section. -/
def closing (document : Document) : List String :=
  if document.blocks = [] then ["", "endmodule"] else ["endmodule"]

/-- The lines of a module. -/
def moduleLines (document : Document) (name : String) : List String :=
  document.headerLines ++ (document.headingLines name ++
    "" :: (document.blocks.flatMap (· ++ [""]) ++ document.closing))

theorem unlines_headerLines (document : Document) :
    unlines document.headerLines = document.headerText := by
  have hentries (entries : List String) :
      unlines (entries.map ("// " ++ ·)) =
        String.join (entries.map fun entry => s!"// {entry}\n") := by
    rw [unlines, List.map_map]
    rfl
  cases hheader : document.header with
  | nil => simp only [headerLines, headerText, hheader, Text.unlines_nil]
  | cons entry rest =>
    simp only [headerLines, headerText, hheader, Text.unlines_append, hentries]
    rfl

theorem unlines_headingLines (document : Document) (name : String) :
    unlines (document.headingLines name) = "module " ++ name ++ document.portList := by
  cases hports : document.ports with
  | nil => simp [headingLines, portList, hports, String.append_assoc]
  | cons port rest =>
    simp only [headingLines, portList, hports, Text.unlines_cons, Text.unlines_append,
      unlines_commaLines, String.append_assoc]
    rfl

theorem sections_eq_blocks (document : Document) :
    document.sections indentation = document.blocks.map unlines := by
  have hsection (lines : List String) :
      (section? indentation lines).toList =
        (blockOf (lines.map (indentation ++ ·))).map unlines := by
    cases lines with
    | nil => rfl
    | cons line rest => simp [section?, blockOf, unlines, toString, Function.comp_def]
  have hinstances : document.instances.map (·.text indentation) =
      (document.instances.map (·.lines)).map unlines := by
    rw [List.map_map]
    exact List.map_congr_left fun inst _ => inst.text_eq_unlines
  rw [sections, hsection, hsection, hinstances, List.map_map, List.map_map, blocks,
    List.map_append, List.map_append]
  rfl

theorem unlines_body (document : Document) :
    document.body indentation ++ "\nendmodule\n" =
      unlines (document.blocks.flatMap (· ++ [""]) ++ document.closing) := by
  rw [body, sections_eq_blocks, closing, Text.unlines_append]
  by_cases hnil : document.blocks = []
  · simp [hnil]
  · rw [if_neg hnil, ← Text.intercalate_unlines hnil]
    simp [String.append_assoc]

/-- A module is its lines. -/
theorem moduleText_eq_unlines (document : Document) (name : String) :
    document.moduleText name = unlines (document.moduleLines name) := by
  rw [moduleLines, Text.unlines_append, Text.unlines_append, Text.unlines_cons,
    unlines_headerLines, unlines_headingLines, ← unlines_body]
  simp [moduleText, toString, String.append_assoc]

end Document

end Verilog

end RegMap
