import RegMap.Proofs.Legibility
import RegMap.Text.Numeral

/-!
# Verilog modules read back

The text of a module is read from top to bottom: the comments, the heading with the ports, the
section of the signals, the section of the assignments, and one section for each instance.  Where
each of these ends can be seen from how the next line begins.

* `Verilog.Document.WellFormed.line_feed_notMem`: nothing in a well-formed document breaks a line.
* `Verilog.Document.moduleLines_inj`: the lines of a module tell the document and the name.
* `Verilog.Alike` are items that differ only in how those of different kinds alternate.
* `Verilog.Document.moduleText_ofItems`: alike items have the same text, and of well-formed items
  only they do.
-/

namespace RegMap.Verilog

open Vlnv (SimpleIdentifier)

/-! ## Single lines -/

theorem line_feed_notMem_toDigits (n : Nat) : '\n' ∉ Nat.toDigits 10 n :=
  Text.notMem_toDigits (by omega) (by omega) (by decide) n

theorem line_feed_notMem_vectorRange (width : UInt32) : '\n' ∉ (vectorRange width).toList := by
  by_cases hvector : width > 1
  · simp [toList_vectorRange hvector, line_feed_notMem_toDigits]
  · simp [vectorRange, if_neg hvector]

theorem line_feed_notMem_arrayRange (depth : Option UInt32) :
    '\n' ∉ (arrayRange depth).toList := by
  cases depth with
  | none => simp [arrayRange]
  | some depth => simp [toList_arrayRange_some, line_feed_notMem_toDigits]

theorem line_feed_notMem_ident {name : String} (h : SimpleIdentifier name) :
    '\n' ∉ name.toList :=
  h.notMem (by decide)

theorem PortDeclaration.WellFormed.line_feed_notMem {port : PortDeclaration}
    (h : port.WellFormed) : '\n' ∉ port.line.toList := by
  have hdirection : '\n' ∉ (directionText port.direction).toList := by
    cases port.direction <;> decide
  simp [line, text, indentation, toString, hdirection, line_feed_notMem_vectorRange,
    line_feed_notMem_arrayRange, line_feed_notMem_ident h.ident]

theorem SignalDeclaration.WellFormed.line_feed_notMem {signal : SignalDeclaration}
    (h : signal.WellFormed) : '\n' ∉ signal.line.toList := by
  have hnet : '\n' ∉ signal.net.keyword.toList := by
    cases signal.net <;> decide
  simp [line, text, indentation, toString, hnet, line_feed_notMem_vectorRange,
    line_feed_notMem_arrayRange, line_feed_notMem_ident h.ident]

theorem Assignment.WellFormed.line_feed_notMem {assignment : Assignment}
    (h : assignment.WellFormed) : '\n' ∉ assignment.line.toList := by
  simp [line, text, indentation, toString, h.target_line, h.source_line]

theorem Connection.WellFormed.line_feed_notMem {connection : Connection}
    (h : connection.WellFormed) : '\n' ∉ connection.line.toList := by
  simp [line, text, indentation, toString, h.value_line, line_feed_notMem_ident h.name]

theorem line_feed_notMem_commaLines {entries : List String}
    (h : ∀ entry ∈ entries, '\n' ∉ entry.toList) :
    ∀ line ∈ commaLines entries, '\n' ∉ line.toList := by
  fun_induction commaLines entries with
  | case1 => simp
  | case2 entry => exact h
  | case3 entry next rest ih =>
    rw [List.forall_mem_cons] at h ⊢
    exact ⟨by simp [h.1], ih h.2⟩

theorem Instance.WellFormed.line_feed_notMem {inst : Instance} (h : inst.WellFormed) :
    ∀ line ∈ inst.lines, '\n' ∉ line.toList := by
  have hconnections {connections : List Connection}
      (hvalid : ∀ connection ∈ connections, connection.WellFormed) :
      ∀ line ∈ commaLines (connections.map (·.line)), '\n' ∉ line.toList := by
    refine line_feed_notMem_commaLines fun entry hentry => ?_
    obtain ⟨connection, hconnection, rfl⟩ := List.mem_map.1 hentry
    exact (hvalid connection hconnection).line_feed_notMem
  have hdefinition := line_feed_notMem_ident h.definition
  have hident := line_feed_notMem_ident h.ident
  have hopening : ∀ line ∈ inst.opening, '\n' ∉ line.toList := by
    rw [Instance.opening]
    split
    · simp [indentation, hdefinition, hident]
    · rw [List.forall_mem_cons, List.forall_mem_append]
      exact ⟨by simp [indentation, hdefinition], hconnections h.parameters,
        by simp [indentation, hident]⟩
  rw [Instance.lines, List.forall_mem_append, List.forall_mem_append]
  exact ⟨hopening, hconnections h.ports, by simp [indentation]⟩

namespace Document

/-- A document of well-formed items, of which the header lines are lines. -/
structure WellFormed (document : Document) : Prop where
  header : ∀ entry ∈ document.header, '\n' ∉ entry.toList
  ports : ∀ port ∈ document.ports, port.WellFormed
  signals : ∀ signal ∈ document.signals, signal.WellFormed
  assignments : ∀ assignment ∈ document.assignments, assignment.WellFormed
  instances : ∀ inst ∈ document.instances, inst.WellFormed

theorem headerLines_eq_blockOf (document : Document) :
    document.headerLines =
      (blockOf (document.header.map ("// " ++ ·))).flatMap (· ++ [""]) := by
  rw [headerLines]
  cases document.header with
  | nil => rfl
  | cons entry rest => simp [blockOf]

theorem blocks_flatMap (document : Document) :
    document.blocks.flatMap (· ++ [""]) =
      (blockOf (document.signals.map (·.line))).flatMap (· ++ [""]) ++
        ((blockOf (document.assignments.map (·.line))).flatMap (· ++ [""]) ++
          document.instances.flatMap fun inst => inst.lines ++ [""]) := by
  simp [blocks, List.flatMap_map]

theorem line_feed_notMem_blockOf {lines : List String}
    (h : ∀ line ∈ lines, '\n' ∉ line.toList) :
    ∀ line ∈ (blockOf lines).flatMap (· ++ [""]), '\n' ∉ line.toList := by
  cases lines with
  | nil => simp [blockOf]
  | cons first rest => simpa [blockOf, or_imp, forall_and] using h

namespace WellFormed

variable {document : Document} (h : document.WellFormed) {name : String}

include h

theorem line_feed_notMem_headingLines (hname : SimpleIdentifier name) :
    ∀ line ∈ document.headingLines name, '\n' ∉ line.toList := by
  have hident := line_feed_notMem_ident hname
  rw [headingLines]
  split
  · simp [hident]
  · rw [List.forall_mem_cons, List.forall_mem_append]
    refine ⟨by simp [hident], line_feed_notMem_commaLines fun entry hentry => ?_, by simp⟩
    obtain ⟨port, hport, rfl⟩ := List.mem_map.1 hentry
    exact (h.ports port hport).line_feed_notMem

/-- A well-formed document has no line feed in a line. -/
theorem line_feed_notMem (hname : SimpleIdentifier name) :
    ∀ line ∈ document.moduleLines name, '\n' ∉ line.toList := by
  have hclosing : ∀ line ∈ document.closing, '\n' ∉ line.toList := by
    rw [closing]
    split <;> simp
  rw [moduleLines, headerLines_eq_blockOf, blocks_flatMap]
  simp only [List.forall_mem_append, List.forall_mem_cons]
  refine ⟨line_feed_notMem_blockOf ?_, h.line_feed_notMem_headingLines hname, by simp,
    ⟨line_feed_notMem_blockOf ?_, line_feed_notMem_blockOf ?_, ?_⟩, hclosing⟩
  · rw [List.forall_mem_map]
    exact fun entry hentry => by simp [h.header entry hentry]
  · rw [List.forall_mem_map]
    exact fun signal hsignal => (h.signals signal hsignal).line_feed_notMem
  · rw [List.forall_mem_map]
    exact fun assignment hassignment => (h.assignments assignment hassignment).line_feed_notMem
  · rw [List.forall_mem_flatMap]
    intro inst hinst
    rw [List.forall_mem_append]
    exact ⟨(h.instances inst hinst).line_feed_notMem, by simp⟩

end WellFormed

/-! ## The order of the lines -/

/-- What is behind the header of a module does not begin like it. -/
theorem not_begins_headingLines (document : Document) (name : String) (rest : List String) :
    ∀ first ∈ (document.headingLines name ++ rest).head?, ¬Begins ["// "] first := by
  rw [headingLines]
  split <;> rintro _ ⟨⟩ <;> simp [Begins]

/-- A heading is told from the name and the ports. -/
theorem headingLines_append_inj {document document' : Document} {name name' : String}
    (hports : ∀ port ∈ document.ports, port.WellFormed)
    (hports' : ∀ port ∈ document'.ports, port.WellFormed) (hname : SimpleIdentifier name)
    (hname' : SimpleIdentifier name') {rest rest' : List String}
    (h : document.headingLines name ++ rest = document'.headingLines name' ++ rest') :
    name = name' ∧ document.ports = document'.ports ∧ rest = rest' := by
  have hsemicolon : ∀ c ∈ ";".toList.head?, ¬Vlnv.NameCharacter c := by
    rintro _ ⟨⟩
    decide
  have hparen : ∀ c ∈ " (".toList.head?, ¬Vlnv.NameCharacter c := by
    rintro _ ⟨⟩
    decide
  have hclosing (rest : List String) :
      ∀ first ∈ (");" :: rest).head?, ¬Begins [indentation] first := by
    rintro _ ⟨⟩
    decide
  rw [headingLines, headingLines] at h
  cases hnone : document.ports with
  | nil =>
    cases hnone' : document'.ports with
    | nil =>
      simp only [hnone, hnone', List.cons_append, List.nil_append, List.cons.injEq] at h
      exact ⟨(hname.append_right_inj hname' hsemicolon hsemicolon h.1).1, rfl, h.2⟩
    | cons port' ports' =>
      simp only [hnone, hnone', List.cons_append, List.nil_append, List.cons.injEq] at h
      exact absurd (hname.append_right_inj hname' hsemicolon hparen h.1).2 (by decide)
  | cons port ports =>
    cases hnone' : document'.ports with
    | nil =>
      simp only [hnone, hnone', List.cons_append, List.nil_append, List.cons.injEq] at h
      exact absurd (hname.append_right_inj hname' hparen hsemicolon h.1).2 (by decide)
    | cons port' ports' =>
      simp only [hnone, hnone', List.cons_append, List.append_assoc, List.nil_append,
        List.cons.injEq] at h
      rw [hnone] at hports
      rw [hnone'] at hports'
      obtain ⟨hports_eq, hrest⟩ := legible_port.commaLines_append_inj hports hports' (by decide)
        (hclosing rest) (hclosing rest') h.2
      have hnames := (hname.append_right_inj hname' hparen hparen h.1).1
      exact ⟨hnames, hports_eq, (List.cons.inj hrest).2⟩

theorem not_begins_closing_lines (document : Document) {words : List String}
    (hempty : ¬Begins words "") (hend : ¬Begins words "endmodule") :
    ∀ first ∈ document.closing.head?, ¬Begins words first := by
  rw [closing]
  split
  · rintro _ ⟨⟩
    exact hempty
  · rintro _ ⟨⟩
    exact hend

/-- Instances do not begin like other items, and neither do the last lines. -/
theorem not_begins_instances {document : Document} (h : document.WellFormed) :
    ∀ first ∈ ((document.instances.flatMap fun inst => inst.lines ++ [""]) ++
      document.closing).head?, ¬Begins ["    wire ", "    logic ", "    assign "] first := by
  cases hinstances : document.instances with
  | nil => exact document.not_begins_closing_lines (by decide) (by decide)
  | cons inst rest =>
    obtain ⟨more, lines, hlines⟩ := inst.exists_lines
    rw [List.flatMap_cons, hlines]
    rintro _ ⟨⟩
    exact (h.instances inst (by simp [hinstances])).not_begins more

/-- The sections behind the signals do not begin like a signal. -/
theorem not_begins_assignments {document : Document} (h : document.WellFormed) :
    ∀ first ∈ ((blockOf (document.assignments.map (·.line))).flatMap (· ++ [""]) ++
      ((document.instances.flatMap fun inst => inst.lines ++ [""]) ++ document.closing)).head?,
      ¬Begins ["    wire ", "    logic "] first := by
  cases document.assignments with
  | nil =>
    exact fun first hfirst hbegins =>
      not_begins_instances h first hfirst (hbegins.mono (by simp))
  | cons assignment rest =>
    rintro _ ⟨⟩
    simp [Begins, Assignment.line, Assignment.text, indentation, toString]

/-- Documents are told by the lines of their modules. -/
theorem moduleLines_inj {document document' : Document} {name name' : String}
    (h : document.WellFormed) (h' : document'.WellFormed) (hname : SimpleIdentifier name)
    (hname' : SimpleIdentifier name')
    (heq : document.moduleLines name = document'.moduleLines name') :
    document = document' ∧ name = name' := by
  -- from the top, each part ends where the next line cannot belong to it
  rw [moduleLines, moduleLines, headerLines_eq_blockOf, headerLines_eq_blockOf] at heq
  obtain ⟨hheader, hheading⟩ := legible_header.blockOf_append_inj (fun _ _ => trivial)
    (fun _ _ => trivial) (by decide) (not_begins_headingLines _ _ _)
    (not_begins_headingLines _ _ _) heq
  obtain ⟨hnames, hports, hbody⟩ :=
    headingLines_append_inj h.ports h'.ports hname hname' hheading
  rw [List.cons.injEq, blocks_flatMap, blocks_flatMap, List.append_assoc, List.append_assoc,
    List.append_assoc, List.append_assoc] at hbody
  obtain ⟨hsignals, hbehind⟩ := legible_signal.blockOf_append_inj h.signals h'.signals (by decide)
    (not_begins_assignments h) (not_begins_assignments h') hbody.2
  obtain ⟨hassignments, hlast⟩ := legible_assignment.blockOf_append_inj h.assignments
    h'.assignments (by decide)
    (fun first hfirst hbegins => not_begins_instances h first hfirst (hbegins.mono (by simp)))
    (fun first hfirst hbegins => not_begins_instances h' first hfirst (hbegins.mono (by simp)))
    hbehind
  obtain ⟨hinstances, -⟩ := legible_instance.flatMap_append_inj h.instances h'.instances
    (document.not_begins_closing_lines (by decide) (by decide))
    (document'.not_begins_closing_lines (by decide) (by decide)) hlast
  cases document
  cases document'
  simp_all

/-- Documents are told by their modules. -/
theorem moduleText_inj {document document' : Document} {name name' : String}
    (h : document.WellFormed) (h' : document'.WellFormed) (hname : SimpleIdentifier name)
    (hname' : SimpleIdentifier name')
    (heq : document.moduleText name = document'.moduleText name') :
    document = document' ∧ name = name' := by
  rw [moduleText_eq_unlines, moduleText_eq_unlines] at heq
  exact moduleLines_inj h h' hname hname' <|
    Text.unlines_injective (h.line_feed_notMem hname) (h'.line_feed_notMem hname') heq

end Document

/-! ## Items in any order -/

namespace Item

/-- The port, if an item is one. -/
def port? : Item → Option PortDeclaration
  | .port declared => some declared
  | _ => none

/-- The signal, if an item is one. -/
def signal? : Item → Option SignalDeclaration
  | .signal declared => some declared
  | _ => none

/-- The assignment, if an item is one. -/
def assignment? : Item → Option Assignment
  | .assignment declared => some declared
  | _ => none

/-- The instance, if an item is one. -/
def inst? : Item → Option Instance
  | .inst declared => some declared
  | _ => none

/-- An item that is well-formed as one of its kind. -/
def WellFormed : Item → Prop
  | .port declared => declared.WellFormed
  | .signal declared => declared.WellFormed
  | .assignment declared => declared.WellFormed
  | .inst declared => declared.WellFormed

end Item

/-- Items of which those of each kind are the same in the same order. -/
structure Alike (items items' : List Item) : Prop where
  ports : items.filterMap Item.port? = items'.filterMap Item.port?
  signals : items.filterMap Item.signal? = items'.filterMap Item.signal?
  assignments : items.filterMap Item.assignment? = items'.filterMap Item.assignment?
  instances : items.filterMap Item.inst? = items'.filterMap Item.inst?

/-- A module of well-formed items, with an identifier as its name and lines as its header. -/
structure Readable (header : List String) (items : List Item) (name : String) : Prop where
  header : ∀ entry ∈ header, '\n' ∉ entry.toList
  items : ∀ item ∈ items, item.WellFormed
  name : SimpleIdentifier name

namespace Document

/-- A document has the items of each kind in order. -/
theorem ofItems_eq (header : List String) (items : List Item) : ofItems header items =
    { header := header
      ports := items.filterMap Item.port?
      signals := items.filterMap Item.signal?
      assignments := items.filterMap Item.assignment?
      instances := items.filterMap Item.inst? } := by
  have hadd (document : Document) : items.foldl add document =
      { document with
        ports := document.ports ++ items.filterMap Item.port?
        signals := document.signals ++ items.filterMap Item.signal?
        assignments := document.assignments ++ items.filterMap Item.assignment?
        instances := document.instances ++ items.filterMap Item.inst? } := by
    induction items generalizing document with
    | nil => simp
    | cons item rest ih =>
      rw [List.foldl_cons, ih]
      cases item <;>
        simp [add, List.filterMap_cons, Item.port?, Item.signal?, Item.assignment?, Item.inst?]
  simpa [ofItems] using hadd { header }

theorem ofItems_eq_iff {header header' : List String} {items items' : List Item} :
    ofItems header items = ofItems header' items' ↔ header = header' ∧ Alike items items' := by
  rw [ofItems_eq, ofItems_eq, Document.mk.injEq]
  constructor
  · rintro ⟨hheader, hports, hsignals, hassignments, hinstances⟩
    exact ⟨hheader, hports, hsignals, hassignments, hinstances⟩
  · rintro ⟨hheader, hports, hsignals, hassignments, hinstances⟩
    exact ⟨hheader, hports, hsignals, hassignments, hinstances⟩

theorem ofItems_wellFormed {header : List String} {items : List Item} {name : String}
    (h : Readable header items name) : (ofItems header items).WellFormed := by
  have hmem {α : Type} {kind : Item → Option α} {valid : α → Prop}
      (hkind : ∀ item a, kind item = some a → item.WellFormed → valid a) :
      ∀ a ∈ items.filterMap kind, valid a := by
    intro a ha
    obtain ⟨item, hitem, hsome⟩ := List.mem_filterMap.1 ha
    exact hkind item a hsome (h.items item hitem)
  rw [ofItems_eq]
  refine ⟨h.header, hmem ?_, hmem ?_, hmem ?_, hmem ?_⟩ <;> intro item a hkind hvalid <;>
    cases item <;> cases hkind <;> exact hvalid

/-- A text depends on the items of each kind only, and the text of a module tells all of them. -/
theorem moduleText_ofItems :
    (∀ header items items', Alike items items' →
      (∀ name, (ofItems header items).moduleText name = (ofItems header items').moduleText name) ∧
        (ofItems header items).includeText = (ofItems header items').includeText) ∧
    (∀ header header' items items' name name',
      Readable header items name → Readable header' items' name' →
      (ofItems header items).moduleText name = (ofItems header' items').moduleText name' →
        header = header' ∧ name = name' ∧ Alike items items') := by
  constructor
  · intro header items items' halike
    rw [ofItems_eq_iff.2 ⟨rfl, halike⟩]
    exact ⟨fun _ => rfl, rfl⟩
  · intro header header' items items' name name' h h' heq
    obtain ⟨hdocument, hname⟩ :=
      moduleText_inj (ofItems_wellFormed h) (ofItems_wellFormed h') h.name h'.name heq
    obtain ⟨hheader, halike⟩ := ofItems_eq_iff.1 hdocument
    exact ⟨hheader, hname, halike⟩

/-- Items of each kind that are added in two orders. -/
theorem moduleText_ofItems_interleaved :
    let bus : Item := .port ⟨"bus", .input, 8, some 2⟩
    let flag : Item := .port ⟨"flag", .output, 1, none⟩
    let lane : Item := .signal ⟨.logic, "lane", 4, none⟩
    let drive : Item := .assignment ⟨"lane[0]", "bus[1] & 1'b1"⟩
    let core : Item :=
      .inst ⟨"core", "u_core", [⟨"DEPTH", "2"⟩], [⟨"in", "lane"⟩, ⟨"out", "flag"⟩]⟩
    let idle : Item := .inst ⟨"idle", "u_idle", [], []⟩
    let items := [core, bus, drive, idle, flag, lane]
    let items' := [lane, bus, flag, drive, core, idle]
    Alike items items' ∧ Readable ["generated"] items "top" ∧
      Readable ["generated"] items' "top" ∧
      (ofItems ["generated"] items).includeText = (ofItems ["generated"] items').includeText ∧
      (ofItems ["generated"] items).moduleText "top" =
        (ofItems ["generated"] items').moduleText "top" ∧ Alike items' items := by
  intro bus flag lane drive core idle items items'
  have hident {name : String} (h : Vlnv.isIdentifier name.toList = true) :
      SimpleIdentifier name := (Vlnv.isIdentifier_iff name).1 h
  have hvalid : ∀ item ∈ items', item.WellFormed := by
    simp only [items', List.forall_mem_cons]
    refine ⟨⟨hident (by decide), by decide⟩, ⟨hident (by decide), by decide⟩,
      ⟨hident (by decide), by decide⟩, ⟨by decide, by decide, by decide⟩,
      ⟨hident (by decide), by decide, hident (by decide), ?_, ?_⟩,
      ⟨hident (by decide), by decide, hident (by decide), by simp, by simp⟩, by simp⟩
    · rw [List.forall_mem_singleton]
      exact ⟨hident (by decide), by decide⟩
    · rw [List.forall_mem_cons, List.forall_mem_singleton]
      exact ⟨⟨hident (by decide), by decide⟩, hident (by decide), by decide⟩
  have hreadable' : Readable ["generated"] items' "top" := ⟨by decide, hvalid, hident (by decide)⟩
  have hsubset : items ⊆ items' := by simp [items, items']
  have hreadable : Readable ["generated"] items "top" :=
    ⟨by decide, fun item hitem => hvalid item (hsubset hitem), hident (by decide)⟩
  have halike : Alike items items' := ⟨by decide, by decide, by decide, by decide⟩
  obtain ⟨hmodule, hinclude⟩ := moduleText_ofItems.1 ["generated"] items items' halike
  obtain ⟨-, -, halike'⟩ := moduleText_ofItems.2 ["generated"] ["generated"] items' items "top"
    "top" hreadable' hreadable (hmodule "top").symm
  exact ⟨halike, hreadable, hreadable', hinclude, hmodule "top", halike'⟩

end Document

end RegMap.Verilog
