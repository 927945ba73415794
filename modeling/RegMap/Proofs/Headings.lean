import Mathlib.Data.List.Basic
import RegMap.Proofs.Identifiers
import RegMap.Template

/-!
# Headings of Verilog texts

The wrapper and the template begin with comments that quote the identifier of the core.  A comment
ends with its line, and an identifier may have several lines.

* `Verilog.Headed` says of a text that there are only comments and empty lines above its code.
* `Verilog.Document.lines_headerText`: the lines of a document's header are those of its entries,
  of which only the first of each is marked as a comment.
* `Verilog.Document.Quotes.headed_iff`: so a document that quotes a text is headed exactly if the
  further lines of the text are comments or empty themselves.
* `RegisterMap.headings_of_ofText` says this of the wrapper and the template, which are headed in
  any case if the identifier has just one line.
* `RegisterMap.not_headed_render`: an identifier that is accepted can put code above the code.
-/

namespace RegMap

/-! ## Lines -/

namespace Text

/-- The lines of a text.  A text that ends with a line feed has an empty last line. -/
def lines (text : String) : List String :=
  (segments '\n' text.toList).map String.ofList

theorem lines_append (left right : String) :
    lines (left ++ "\n" ++ right) = lines left ++ lines right := by
  have htext : (left ++ "\n" ++ right).toList = left.toList ++ '\n' :: right.toList := by simp
  rw [lines, htext, segments_append_cons, List.map_append]
  rfl

theorem lines_of_notMem {text : String} (h : '\n' ∉ text.toList) : lines text = [text] := by
  rw [lines, segments_of_notMem h, List.map_singleton, String.ofList_toList]

theorem exists_lines (text : String) : ∃ first rest, lines text = first :: rest := by
  obtain ⟨first, rest, h⟩ := List.exists_cons_of_ne_nil (segments_ne_nil '\n' text.toList)
  exact ⟨String.ofList first, rest.map String.ofList, by rw [lines, h, List.map_cons]⟩

theorem segments_append_of_notMem {separator : Char} {left : List Char} (h : separator ∉ left)
    (right : List Char) :
    segments separator (left ++ right) = (segments separator right).modifyHead (left ++ ·) := by
  obtain ⟨first, rest, hright⟩ := List.exists_cons_of_ne_nil (segments_ne_nil separator right)
  induction left with
  | nil => simp [hright]
  | cons c left ih =>
    rw [List.mem_cons, not_or] at h
    simp [segments, Ne.symm h.1, ih h.2, hright]

/-- What stands before a text without a line feed stands in its first line. -/
theorem lines_append_of_notMem {left : String} (h : '\n' ∉ left.toList) {right first : String}
    {rest : List String} (hright : lines right = first :: rest) :
    lines (left ++ right) = (left ++ first) :: rest := by
  rw [lines] at hright ⊢
  rw [String.toList_append, segments_append_of_notMem h]
  cases hsegments : segments '\n' right.toList with
  | nil => exact absurd hsegments (segments_ne_nil _ _)
  | cons head tail =>
    rw [hsegments, List.map_cons, List.cons.injEq] at hright
    obtain ⟨rfl, rfl⟩ := hright
    simp [String.ofList_append]

end Text

/-! ## Headings -/

namespace Verilog

/-- A line without code: an empty one, or a comment from its first character on. -/
def Remark (line : String) : Prop :=
  line = "" ∨ "//".toList <+: line.toList

instance : DecidablePred Remark := fun _ => inferInstanceAs (Decidable (_ ∨ _))

/-- Whether a line begins with one of some words. -/
def Begins (words : List String) (line : String) : Prop :=
  ∃ word ∈ words, word.toList <+: line.toList

instance (words : List String) : DecidablePred (Begins words) := fun line =>
  inferInstanceAs (Decidable (∃ word ∈ words, word.toList <+: line.toList))

/-- The lines above the first that begins with one of some words. -/
def above (words : List String) (lines : List String) : List String :=
  lines.takeWhile fun line => ¬Begins words line

/-- A text has a line that begins with one of some words, and above the first of them it has
comments and empty lines only. -/
structure Headed (words : List String) (text : String) : Prop where
  exists_begins : ∃ line ∈ Text.lines text, Begins words line
  remark : ∀ line ∈ above words (Text.lines text), Remark line

/-- Words of code, which no comment begins with. -/
def CodeWords (words : List String) : Prop :=
  ∀ word ∈ words, ∃ first rest, word.toList = first :: rest ∧ first ≠ '/'

section

variable {words : List String}

theorem above_cons_of_begins {line : String} (h : Begins words line) (rest : List String) :
    above words (line :: rest) = [] :=
  List.takeWhile_cons_of_neg (by simpa using h)

theorem above_cons_of_not_begins {line : String} (h : ¬Begins words line) (rest : List String) :
    above words (line :: rest) = line :: above words rest :=
  List.takeWhile_cons_of_pos (by simpa using h)

/-- Where remarks lead to the code, what matters is what comes before them. -/
theorem forall_above_append {front back : List String}
    (hback : ∀ line ∈ above words back, Remark line) :
    (∀ line ∈ above words (front ++ back), Remark line) ↔
      ∀ line ∈ above words front, Remark line := by
  induction front with
  | nil => simpa [above] using hback
  | cons line front ih =>
    by_cases h : Begins words line
    · rw [List.cons_append, above_cons_of_begins h, above_cons_of_begins h]
    · rw [List.cons_append, above_cons_of_not_begins h, above_cons_of_not_begins h,
        List.forall_mem_cons, List.forall_mem_cons, ih]

theorem Remark.not_begins (hwords : CodeWords words) {line : String} (h : Remark line) :
    ¬Begins words line := by
  rintro ⟨word, hword, hprefix⟩
  obtain ⟨first, rest, hfirst, hslash⟩ := hwords word hword
  rw [hfirst] at hprefix
  rcases h with rfl | hcomment
  · simp at hprefix
  · obtain ⟨more, hmore⟩ := hcomment
    obtain ⟨other, hother⟩ := hprefix
    have heq : '/' :: '/' :: more = first :: (rest ++ other) := hmore.trans hother.symm
    exact hslash (List.cons.inj heq).1.symm

/-- Of a text that starts with a comment, goes on with unknown lines and then has nothing but
remarks above a line of code, only the unknown lines matter. -/
theorem headed_iff (hwords : CodeWords words) {text comment code : String}
    {unknown remarks rest : List String}
    (htext : Text.lines text = comment :: (unknown ++ (remarks ++ code :: rest)))
    (hcomment : Remark comment) (hremarks : ∀ remark ∈ remarks, Remark remark)
    (hcode : Begins words code) :
    Headed words text ↔ ∀ line ∈ above words unknown, Remark line := by
  have hbelow : ∀ line ∈ above words (remarks ++ code :: rest), Remark line := by
    refine (forall_above_append (by simp [above_cons_of_begins hcode])).2 ?_
    exact fun line hline => hremarks line ((List.takeWhile_subset _) hline)
  have habove := above_cons_of_not_begins (hcomment.not_begins hwords)
    (unknown ++ (remarks ++ code :: rest))
  rw [← forall_above_append hbelow]
  constructor
  · intro h line hline
    refine h.remark line ?_
    rw [htext, habove]
    exact List.mem_cons_of_mem _ hline
  · intro h
    refine ⟨⟨code, by simp [htext], hcode⟩, ?_⟩
    rw [htext, habove]
    exact List.forall_mem_cons.2 ⟨hcomment, h⟩

end

/-- The lines of a header are those of its entries, the first of each as a comment, and an empty
one. -/
theorem Document.lines_headerText {document : Document} (h : document.header ≠ [])
    (rest : String) :
    Text.lines (document.headerText ++ rest) =
      (document.header.flatMap fun entry => Text.lines ("// " ++ entry)) ++
        "" :: Text.lines rest := by
  have hentries (entries : List String) (after : String) :
      Text.lines (String.join (entries.map fun entry => s!"// {entry}\n") ++ after) =
        (entries.flatMap fun entry => Text.lines ("// " ++ entry)) ++ Text.lines after := by
    induction entries with
    | nil => simp
    | cons entry entries ih =>
      have hsplit : String.join ((entry :: entries).map fun entry => s!"// {entry}\n") ++ after =
          ("// " ++ entry) ++ "\n" ++
            (String.join (entries.map fun entry => s!"// {entry}\n") ++ after) := by
        simp [String.append_assoc, toString]
      rw [hsplit, Text.lines_append, ih, List.flatMap_cons, List.append_assoc]
  have hempty : Text.lines ("\n" ++ rest) = "" :: Text.lines rest := Text.lines_append "" rest
  obtain ⟨entry, more, hheader⟩ := List.exists_cons_of_ne_nil h
  have htext : document.headerText ++ rest =
      String.join (document.header.map fun entry => s!"// {entry}\n") ++ ("\n" ++ rest) := by
    simp [headerText, hheader, String.append_assoc]
  rw [htext, hentries, hempty]

theorem remark_comment (text : String) : Remark ("// " ++ text) :=
  .inr ⟨' ' :: text.toList, by simp⟩

/-- The first entry of a document's header ends with a text, and what is around the text has no
line feeds. -/
structure Document.Quotes (document : Document) (text : String) : Prop where
  exists_header : ∃ quote others, document.header = (quote ++ text) :: others ∧
    '\n' ∉ quote.toList ∧ ∀ other ∈ others, '\n' ∉ other.toList

namespace Document.Quotes

variable {document : Document} {text : String} (h : document.Quotes text)

include h

/-- The lines of the quoted text after its first stand between the comments as they are. -/
theorem exists_lines : ∃ comment remarks, Remark comment ∧ (∀ remark ∈ remarks, Remark remark) ∧
    ∀ rest, Text.lines (document.headerText ++ rest) =
      comment :: ((Text.lines text).tail ++ (remarks ++ Text.lines rest)) := by
  obtain ⟨quote, others, hheader, hquote, hothers⟩ := h.exists_header
  obtain ⟨first, unknown, htext⟩ := Text.exists_lines text
  have hentry : Text.lines ("// " ++ (quote ++ text)) =
      ("// " ++ (quote ++ first)) :: unknown := by
    rw [← String.append_assoc, ← String.append_assoc]
    exact Text.lines_append_of_notMem (by simpa using hquote) htext
  have hcomments : (others.flatMap fun other => Text.lines ("// " ++ other)) =
      others.map ("// " ++ ·) := by
    rw [List.map_eq_flatMap]
    refine List.flatMap_congr fun other hother => Text.lines_of_notMem ?_
    simpa using hothers other hother
  refine ⟨"// " ++ (quote ++ first), others.map ("// " ++ ·) ++ [""], remark_comment _, ?_, ?_⟩
  · rw [List.forall_mem_append, List.forall_mem_map]
    exact ⟨fun other _ => remark_comment other, by simp [Remark]⟩
  · intro rest
    rw [lines_headerText (by simp [hheader]), hheader, List.flatMap_cons, hentry, hcomments, htext]
    simp

theorem infix_lines (rest : String) :
    (Text.lines text).tail <:+: Text.lines (document.headerText ++ rest) := by
  obtain ⟨comment, remarks, -, -, hlines⟩ := h.exists_lines
  exact ⟨[comment], remarks ++ Text.lines rest, by simp [hlines]⟩

/-- Such a document is headed if the further lines of the text are remarks themselves. -/
theorem headed_iff {words : List String} (hwords : CodeWords words) {word : String}
    (hword : word ∈ words) (hline : '\n' ∉ word.toList) (more : String) :
    Headed words (document.headerText ++ (word ++ more)) ↔
      ∀ line ∈ above words (Text.lines text).tail, Remark line := by
  obtain ⟨comment, remarks, hcomment, hremarks, hlines⟩ := h.exists_lines
  obtain ⟨code, rest, hcode⟩ := Text.exists_lines more
  have hword_line : Text.lines (word ++ more) = (word ++ code) :: rest :=
    Text.lines_append_of_notMem hline hcode
  have htext := hlines (word ++ more)
  rw [hword_line] at htext
  exact Verilog.headed_iff hwords htext hcomment hremarks ⟨word, hword, by simp⟩

end Document.Quotes

end Verilog

/-! ## Wrapper and template -/

open Verilog

/-- How the lines of the template begin that declare a signal or instantiate the wrapper. -/
def Template.openings (map : RegisterMap) : List String :=
  [Net.logic.keyword ++ " ", map.vlnv.moduleName ++ " "]

/-- The wrapper's code begins as a module. -/
theorem Wrapper.exists_module (map : RegisterMap) :
    ∃ more, (document map).moduleText map.vlnv.moduleName =
      (document map).headerText ++ ("module " ++ more) :=
  ⟨_, by simp only [Document.moduleText, toString, String.append_assoc]; rfl⟩

/-- The template's code begins with a declaration, or without fields with the instance. -/
theorem Template.exists_opening (map : RegisterMap) :
    ∃ word ∈ openings map, ∃ more, (document map).body "" = word ++ more := by
  cases hports : Wrapper.fieldPorts map with
  | nil =>
    refine ⟨map.vlnv.moduleName ++ " ", by simp [openings], ?_⟩
    simp [Document.body, Document.sections, document, hports, Document.section?, wrapper,
      Instance.text, parameterText, toString, String.append_assoc]
  | cons port ports =>
    refine ⟨Net.logic.keyword ++ " ", by simp [openings], ?_⟩
    simp [Document.body, Document.sections, document, hports, Document.section?, signal,
      SignalDeclaration.text, toString, String.append_assoc]

section

variable {text : String} {map : RegisterMap} (h : Vlnv.ofText text = .ok map.vlnv)

include h

theorem Vlnv.text_of_ofText : map.vlnv.text = text :=
  (ofText_eq_ok_iff.1 h).1.join_eq

/-- The generated module has a simple identifier as its name. -/
theorem Vlnv.simpleIdentifier_moduleName : SimpleIdentifier map.vlnv.moduleName :=
  ((wellFormed_segments_iff map.vlnv).1 (ofText_eq_ok_iff.1 h).2).1

theorem Vlnv.line_feed_notMem_moduleName : '\n' ∉ map.vlnv.moduleName.toList := by
  obtain ⟨first, rest, hname, hfirst, hrest⟩ := simpleIdentifier_moduleName h
  rw [hname, List.mem_cons, not_or]
  refine ⟨?_, fun hmem => ?_⟩
  · rintro rfl
    exact absurd hfirst (by decide)
  · exact absurd (hrest _ hmem) (by decide)

theorem Template.codeWords_openings : CodeWords (openings map) := by
  obtain ⟨first, rest, hname, hfirst, -⟩ := Vlnv.simpleIdentifier_moduleName h
  have hname_word : ∃ first rest,
      (map.vlnv.moduleName ++ " ").toList = first :: rest ∧ first ≠ '/' := by
    refine ⟨first, rest ++ [' '], by simp [hname], ?_⟩
    rintro rfl
    exact absurd hfirst (by decide)
  exact List.forall_mem_cons.2
    ⟨⟨'l', "ogic ".toList, by decide, by decide⟩, List.forall_mem_singleton.2 hname_word⟩

/-- No opening of the template goes on after its line. -/
theorem Template.line_feed_notMem_opening : ∀ word ∈ openings map, '\n' ∉ word.toList := by
  have hname : '\n' ∉ (map.vlnv.moduleName ++ " ").toList := by
    simpa using Vlnv.line_feed_notMem_moduleName h
  exact List.forall_mem_cons.2 ⟨by decide, List.forall_mem_singleton.2 hname⟩

theorem Wrapper.quotes_document : (document map).Quotes text where
  exists_header := by
    refine ⟨map.vlnv.moduleName ++ ": register map wrapper for ",
      ["Generated by csrgen. Do not edit."], ?_, ?_, by decide⟩
    · simp [document, header, toString, Vlnv.text_of_ofText h]
    · simpa using Vlnv.line_feed_notMem_moduleName h

theorem Template.quotes_document : (document map).Quotes text where
  exists_header := by
    refine ⟨map.vlnv.moduleName ++ ": instantiation template for ", [], ?_, ?_, by simp⟩
    · simp [document, header, toString, Vlnv.text_of_ofText h]
    · simpa using Vlnv.line_feed_notMem_moduleName h

theorem Wrapper.headed_render_iff :
    Headed ["module "] (render map) ↔
      ∀ line ∈ above ["module "] (Text.lines text).tail, Remark line := by
  have hwords : CodeWords ["module "] :=
    List.forall_mem_singleton.2 ⟨'m', "odule ".toList, by decide, by decide⟩
  obtain ⟨more, hmore⟩ := exists_module map
  rw [render, hmore]
  exact (quotes_document h).headed_iff hwords (by simp) (by decide) more

theorem Template.headed_render_iff :
    Headed (openings map) (render map) ↔
      ∀ line ∈ above (openings map) (Text.lines text).tail, Remark line := by
  obtain ⟨word, hword, more, hbody⟩ := exists_opening map
  rw [render, Document.includeText, hbody]
  exact (quotes_document h).headed_iff (codeWords_openings h) hword
    (line_feed_notMem_opening h word hword) more

theorem Wrapper.infix_lines_render : (Text.lines text).tail <:+: Text.lines (render map) := by
  obtain ⟨more, hmore⟩ := exists_module map
  rw [render, hmore]
  exact (quotes_document h).infix_lines _

theorem Template.infix_lines_render : (Text.lines text).tail <:+: Text.lines (render map) := by
  rw [render, Document.includeText]
  exact (quotes_document h).infix_lines _

end

namespace RegisterMap

/-- How the identifier of a core shows above the code of the wrapper and the template. -/
structure Headings (map : RegisterMap) (text : String) : Prop where
  /-- A line of the identifier after its first, up to one that itself looks like the beginning of
  a module, is code above the code unless it is a remark. -/
  wrapper_iff : Headed ["module "] (Wrapper.render map) ↔
    ∀ line ∈ above ["module "] (Text.lines text).tail, Remark line
  template_iff : Headed (Template.openings map) (Template.render map) ↔
    ∀ line ∈ above (Template.openings map) (Text.lines text).tail, Remark line
  of_single_line : '\n' ∉ text.toList →
    Headed ["module "] (Wrapper.render map) ∧ Headed (Template.openings map) (Template.render map)
  /-- The lines of the identifier after its first are lines of both texts, whatever they are. -/
  infix_lines : (Text.lines text).tail <:+: Text.lines (Wrapper.render map) ∧
    (Text.lines text).tail <:+: Text.lines (Template.render map)

theorem headings_of_ofText {text : String} {map : RegisterMap}
    (h : Vlnv.ofText text = .ok map.vlnv) : map.Headings text where
  wrapper_iff := Wrapper.headed_render_iff h
  template_iff := Template.headed_render_iff h
  of_single_line := by
    intro hline
    rw [Wrapper.headed_render_iff h, Template.headed_render_iff h, Text.lines_of_notMem hline]
    simp [above]
  infix_lines := ⟨Wrapper.infix_lines_render h, Template.infix_lines_render h⟩

/-- Three lines, of which the second is empty and the third a comment. -/
theorem headings_of_ofText_remarks :
    let map := (new ⟨"acme", "csr", "timer", some "1\n\n// rev. B"⟩ none).addFields
      [⟨"level", 4, .readOnly, 1⟩]
    Vlnv.ofText "acme:csr:timer:1\n\n// rev. B" = .ok map.vlnv ∧
      map.Headings "acme:csr:timer:1\n\n// rev. B" := by
  intro map
  have h : Vlnv.ofText "acme:csr:timer:1\n\n// rev. B" = .ok map.vlnv := by rfl
  exact ⟨h, headings_of_ofText h⟩

/-- A line feed in the version is enough to get an assignment above the module and above the
declarations. -/
theorem not_headed_render :
    let map := (new ⟨"acme", "csr", "timer", some "1\nassign q = d;"⟩ none).addFields
      [⟨"level", 4, .readOnly, 1⟩]
    Vlnv.ofText "acme:csr:timer:1\nassign q = d;" = .ok map.vlnv ∧
      (map.pack .plain).2 = .ok () ∧
      ¬Headed ["module "] (Wrapper.render (map.pack .plain).1) ∧
      ¬Headed (Template.openings (map.pack .plain).1) (Template.render (map.pack .plain).1) := by
  intro map
  have hvlnv : Vlnv.ofText "acme:csr:timer:1\nassign q = d;" = .ok (map.pack .plain).1.vlnv := by
    rfl
  have hlines : (Text.lines "acme:csr:timer:1\nassign q = d;").tail = ["assign q = d;"] := by rfl
  have hopenings : Template.openings (map.pack .plain).1 = ["logic ", "timer "] := by cbv
  refine ⟨by rfl, by rfl, ?_, ?_⟩
  · rw [Wrapper.headed_render_iff hvlnv, hlines]
    decide
  · rw [Template.headed_render_iff hvlnv, hlines, hopenings]
    decide

end RegisterMap

end RegMap
