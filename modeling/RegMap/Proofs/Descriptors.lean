import Mathlib.Data.List.Forall2
import Mathlib.Tactic.Tauto
import RegMap.Core
import RegMap.Proofs.Identifiers

/-!
# What a core descriptor lists

A descriptor is a tree that is written as a document.

* `Core.lists_entries`: in the tree, the set `rtl` lists the source files of the core, in
  order, and marks those that are included.
* `Yaml.Tree.scalar_eq_of_dottedWord`: names like those of source files stand in the document
  as they are.  They need no quotes, and are read back as texts.
* `Core.render_of_dottedWord`: the lines of the document, of which `Core.SourceFile.text` are
  those of one source file.
-/

namespace RegMap

namespace Yaml

/-! ## Words -/

/-- The characters of a word: letters, digits, `_`, `$` and dots. -/
def isWordCharacter (c : Char) : Bool :=
  Vlnv.isIdentifierRest c || c = '.'

/-- A word with a dot that starts with a letter or `_`, such as the name of a source file. -/
structure DottedWord (text : List Char) : Prop where
  start : ∃ first rest, text = first :: rest ∧ Vlnv.isIdentifierStart first = true
  all : ∀ c ∈ text, isWordCharacter c = true
  dot_mem : '.' ∈ text

theorem isWordCharacter_of_isIdentifierStart {c : Char} (h : Vlnv.isIdentifierStart c = true) :
    isWordCharacter c = true := by
  simp only [isWordCharacter, Vlnv.isIdentifierStart, Vlnv.isIdentifierRest, Char.isAlphanum,
    Bool.or_eq_true, decide_eq_true_eq] at h ⊢
  tauto

theorem toNat_lt_of_isWordCharacter {c : Char} (h : isWordCharacter c = true) :
    c.toNat < 128 := by
  have hle {last : Char} (hc : c ≤ last) (hlast : last.toNat < 128) : c.toNat < 128 :=
    Nat.lt_of_le_of_lt (UInt32.le_iff_toNat_le.1 hc) hlast
  simp only [isWordCharacter, Vlnv.isIdentifierRest, Char.isAlphanum, Bool.or_eq_true,
    decide_eq_true_eq, Vlnv.isAlpha_iff, Vlnv.isDigit_iff] at h
  rcases h with ((((⟨-, hupper⟩ | ⟨-, hlower⟩) | ⟨-, hdigit⟩) | rfl) | rfl) | rfl
  · exact hle hupper (by decide)
  · exact hle hlower (by decide)
  · exact hle hdigit (by decide)
  all_goals decide

/-- An identifier with an ending is a word. -/
theorem DottedWord.of_isIdentifier {stem ending : List Char} (h : Vlnv.isIdentifier stem = true)
    (hall : ending.all isWordCharacter = true) (hdot : '.' ∈ ending) :
    DottedWord (stem ++ ending) := by
  rw [List.all_eq_true] at hall
  cases stem with
  | nil => cases h
  | cons first rest =>
    rw [Vlnv.isIdentifier, Bool.and_eq_true, List.all_eq_true] at h
    refine ⟨⟨first, rest ++ ending, rfl, h.1⟩, ?_, List.mem_append_right _ hdot⟩
    rw [List.cons_append, List.forall_mem_cons, List.forall_mem_append]
    exact ⟨isWordCharacter_of_isIdentifierStart h.1,
      fun c hc => by simp [isWordCharacter, h.2 c hc], hall⟩

/-- What holds of all ASCII characters can be checked one by one. -/
theorem forall_ascii (p : Char → Prop) (h : ∀ n < 128, p (Char.ofNat n)) {c : Char}
    (hc : c.toNat < 128) : p c := by
  have hn := h c.toNat hc
  rwa [Char.ofNat_toNat] at hn

/-- A character that means only itself inside a plain scalar. -/
structure Innocuous (c : Char) : Prop where
  isPrintable_eq : Scalar.isPrintable c = true
  isBreak_eq : isBreak c = false
  ne_space : c ≠ ' '
  ne_colon : c ≠ ':'
  ne_hash : c ≠ '#'

/-- A character that starts a plain scalar which is no number. -/
structure StartsWord (c : Char) : Prop where
  notMem_startIndicators : c ∉ Scalar.startIndicators
  ne_dash : c ≠ '-'
  ne_mark : c ≠ '?'
  ne_plus : c ≠ '+'
  ne_dot : c ≠ '.'
  isDigit_eq : c.isDigit = false
  digit?_eq : Text.digit? 10 c = none

theorem innocuous_of_isWordCharacter {c : Char} (h : isWordCharacter c = true) :
    Innocuous c := by
  obtain ⟨h1, h2, h3, h4, h5⟩ := forall_ascii
    (fun c => isWordCharacter c = true → Scalar.isPrintable c = true ∧ isBreak c = false ∧
      c ≠ ' ' ∧ c ≠ ':' ∧ c ≠ '#')
    (by decide +kernel) (toNat_lt_of_isWordCharacter h) h
  exact ⟨h1, h2, h3, h4, h5⟩

theorem startsWord_of_isIdentifierStart {c : Char} (h : Vlnv.isIdentifierStart c = true) :
    StartsWord c := by
  have hword := isWordCharacter_of_isIdentifierStart h
  obtain ⟨h1, h2, h3, h4, h5, h6, h7⟩ := forall_ascii
    (fun c => Vlnv.isIdentifierStart c = true → c ∉ Scalar.startIndicators ∧ c ≠ '-' ∧ c ≠ '?' ∧
      c ≠ '+' ∧ c ≠ '.' ∧ c.isDigit = false ∧ Text.digit? 10 c = none)
    (by decide +kernel) (toNat_lt_of_isWordCharacter hword) h
  exact ⟨h1, h2, h3, h4, h5, h6, h7⟩

/-! ## Plain scalars -/

namespace Scalar

theorem hasPair_eq_false {first second : Char → Bool} {text : List Char}
    (h : ∀ c ∈ text, first c = false) : hasPair first second text = false := by
  fun_induction hasPair first second text with
  | case1 a b rest ih =>
    rw [List.forall_mem_cons] at h
    simp [h.1, ih h.2]
  | case2 => rfl

theorem isCut_eq_false {previous : Char} {text : List Char}
    (h : ∀ c ∈ text, c ≠ ':' ∧ c ≠ '#') : isCut previous text = false := by
  induction text generalizing previous with
  | nil => rfl
  | cons c rest ih =>
    rw [List.forall_mem_cons] at h
    simp [isCut, h.1.1, h.1.2, ih h.2]

theorem startsWithIndicator_eq_false {first : Char} (h : StartsWord first) (rest : List Char) :
    startsWithIndicator (first :: rest) = false := by
  have hindicator := h.notMem_startIndicators
  have hdash := h.ne_dash
  have hmark := h.ne_mark
  have hdot := h.ne_dot
  simp [startsWithIndicator, *]

theorem plainAllowed_of_innocuous {first : Char} {rest : List Char} (hfirst : StartsWord first)
    (h : ∀ c ∈ first :: rest, Innocuous c) : plainAllowed (first :: rest) = true := by
  have hescapes : needsEscapes (first :: rest) = false := by
    have hprintable : (first :: rest).all isPrintable = true :=
      List.all_eq_true.2 fun c hc => (h c hc).isPrintable_eq
    rw [needsEscapes, hprintable,
      hasPair_eq_false fun c hc => decide_eq_false (h c hc).ne_space]
    rfl
  have hbreaks : (first :: rest).any isBreak = false :=
    List.any_eq_false.2 fun c hc => by simp [(h c hc).isBreak_eq]
  have hcut : isCut ' ' (first :: rest) = false :=
    isCut_eq_false fun c hc => ⟨(h c hc).ne_colon, (h c hc).ne_hash⟩
  have hspace : ' ' ∉ first :: rest := fun hmem => (h ' ' hmem).ne_space rfl
  have hhead : (first :: rest).head? ≠ some ' ' := fun heq => hspace (List.mem_of_head? heq)
  have hlast : (first :: rest).getLast? ≠ some ' ' := fun heq =>
    hspace (List.mem_of_getLast? heq)
  rw [plainAllowed, hescapes, hbreaks, startsWithIndicator_eq_false hfirst, hcut,
    decide_eq_true hhead, decide_eq_true hlast]
  rfl

end Scalar

/-! ## Words are no numbers -/

namespace Number

variable {first : Char} (h : StartsWord first) (rest : List Char)
include h

theorem ne_zero_of_startsWord : first ≠ '0' := by
  rintro rfl
  exact absurd h.isDigit_eq (by decide)

theorem natural?_eq_none : natural? (first :: rest) = none := by
  have hzero := ne_zero_of_startsWord h
  simp [natural?, hasLeadingZero, hzero, Text.numeral?, Text.numeralFrom?, h.digit?_eq]

theorem integer?_eq_none : integer? (first :: rest) = none := by
  have hdash := h.ne_dash
  have hplus := h.ne_plus
  simp [integer?, hdash, hplus, natural?_eq_none h]

theorem decimal?_eq_none (negative : Bool) : decimal? negative (first :: rest) = none := by
  have hdot := h.ne_dot
  simp [decimal?, h.isDigit_eq, hdot, Text.numeral?]

theorem float?_eq_none : float? (first :: rest) = none := by
  have hdash := h.ne_dash
  have hplus := h.ne_plus
  have hdot := h.ne_dot
  simp [float?, hdash, hplus, finite?, decimal?_eq_none h, isInfinity, isNan, hdot,
    ← String.toList_inj]

end Number

namespace DottedWord

variable {text : List Char} (h : DottedWord text)
include h

theorem plainAllowed : Scalar.plainAllowed text = true := by
  obtain ⟨first, rest, rfl, hfirst⟩ := h.start
  exact Scalar.plainAllowed_of_innocuous (startsWord_of_isIdentifierStart hfirst)
    fun c hc => innocuous_of_isWordCharacter (h.all c hc)

theorem contains_eq_false {words : List String} (hwords : ∀ word ∈ words, '.' ∉ word.toList) :
    words.contains (String.ofList text) = false := by
  rw [List.contains_eq_mem, decide_eq_false_iff_not]
  intro hmem
  have hdot := hwords _ hmem
  rw [String.toList_ofList] at hdot
  exact hdot h.dot_mem

/-- No spelling of null or of a truth value has a dot, and no number starts like a word. -/
theorem ofPlain_eq : Value.ofPlain (String.ofList text) = .ok (.text (String.ofList text)) := by
  have hnull : Value.isNull (String.ofList text) = false := h.contains_eq_false (by decide)
  have hboolean : Value.boolean? (String.ofList text) = none := by
    rw [Value.boolean?, h.contains_eq_false (by decide), h.contains_eq_false (by decide)]
    rfl
  obtain ⟨first, rest, rfl, hfirst⟩ := h.start
  have hword := startsWord_of_isIdentifierStart hfirst
  have hinteger : Value.integer? (String.ofList (first :: rest)) = .ok none := by
    rw [Value.integer?, String.toList_ofList, Number.integer?_eq_none hword]
  have hfloat : Number.float? (String.ofList (first :: rest)).toList = none := by
    rw [String.toList_ofList, Number.float?_eq_none hword]
  have hempty : (String.ofList (first :: rest)).isEmpty = false := by simp
  rw [Value.ofPlain, hempty, hnull, hboolean, hinteger, hfloat]
  cases Value.isPadded (String.ofList (first :: rest)) <;> rfl

end DottedWord

theorem DottedWord.isBreak_eq {text : List Char} (h : DottedWord text) :
    ∀ c ∈ text, isBreak c = false :=
  fun c hc => (innocuous_of_isWordCharacter (h.all c hc)).isBreak_eq

namespace Tree

variable {name : String} (h : DottedWord name.toList) (indent : Nat)
include h

/-- A word with a dot is written as it is. -/
theorem scalar_eq_of_dottedWord : scalar indent name = name.toList := by
  have hline : name.toList.contains '\n' = false := by
    rw [List.contains_eq_mem, decide_eq_false_iff_not]
    intro hmem
    exact absurd (h.isBreak_eq _ hmem) (by decide)
  have hreads : readsAsText name = true := by
    have hplain := h.ofPlain_eq
    rw [String.ofList_toList] at hplain
    rw [readsAsText, hplain]
  rw [scalar, hline, hreads, h.plainAllowed]
  rfl

theorem scalarLine_eq_of_dottedWord : scalarLine indent name = name.toList ++ ['\n'] := by
  have hlast : name.toList.getLast?.any isBreak = false := by
    rw [Option.any_eq_false]
    intro c hc
    simp [h.isBreak_eq c (List.mem_of_getLast? hc)]
  show (if (scalar indent name).getLast?.any isBreak then _ else _) = _
  rw [scalar_eq_of_dottedWord h, hlast]
  rfl

/-- A word with a dot is the key of an entry in one of two ways. -/
theorem entryLines_eq_of_dottedWord (value : Tree) : entryLines indent (name, value) =
    if name.utf8ByteSize ≤ maxKeyOctets then name.toList ++ ':' :: valueLines indent value
    else '?' :: ' ' :: (name.toList ++ ['\n']) ++ Scalar.indentation indent ++
      ':' :: ' ' :: block (indent + step) value := by
  have hbreak : name.toList.any isBreak = false :=
    List.any_eq_false.2 fun c hc => by simp [h.isBreak_eq c hc]
  unfold entryLines
  rw [hbreak, scalar_eq_of_dottedWord h, scalarLine_eq_of_dottedWord h]
  simp

end Tree

/-! ## What a tree holds -/

/-- What is found in a tree under keys of its mappings. -/
def Tree.find? : Tree → List String → Option Tree
  | tree, [] => some tree
  | .mapping entries, key :: path => (entries.lookup key).bind (·.find? path)
  | _, _ :: _ => none

end Yaml

/-! ## Source files -/

namespace Core

/-- An item of a list of source files that is about a file: its only key is the name of the
file, below which it says what kind of file it is, and that it is included if it is. -/
structure SourceFile.Tells (file : SourceFile) (item : Yaml.Tree) : Prop where
  key : ∃ value, item = .mapping [(file.name, value)]
  kind : item.find? [file.name, "file_type"] = some (.text fileKind)
  isIncluded_eq : item.find? [file.name, "is_include_file"] =
    if file.isIncluded then some (.truth true) else none

/-- The source files of a descriptor are the given ones, in order. -/
def Lists (entries : List (String × Yaml.Tree)) (files : List SourceFile) : Prop :=
  ∃ items, (Yaml.Tree.mapping entries).find? ["filesets", fileSet, "files"] =
      some (.sequence items) ∧
    List.Forall₂ SourceFile.Tells files items

theorem SourceFile.tells_tree (file : SourceFile) : file.Tells file.tree where
  key := ⟨_, rfl⟩
  kind := by cases h : file.isIncluded <;> simp [tree, Yaml.Tree.find?, List.lookup_cons, h]
  isIncluded_eq := by
    cases h : file.isIncluded <;> simp [tree, Yaml.Tree.find?, List.lookup_cons, h]

theorem lists_entries (core : Core) : Lists core.entries core.files := by
  refine ⟨core.files.map (·.tree), ?_, ?_⟩
  · simp [entries, Yaml.Tree.find?, List.lookup_cons]
  · rw [List.forall₂_map_right_iff]
    exact List.forall₂_same.2 fun file _ => file.tells_tree

/-! ## Lines -/

/-- What is told of a source file below its name. -/
def SourceFile.details (file : SourceFile) : String :=
  (if file.isIncluded then "is_include_file: true\n        " else "") ++ s!"file_type: {fileKind}\n"

/-- What is told of a source file behind the dash of its item. A name that is too long for a key
on the line of its value is marked. -/
def SourceFile.text (file : SourceFile) : String :=
  if file.name.utf8ByteSize ≤ Yaml.Tree.maxKeyOctets then
    s!"{file.name}:\n        {file.details}"
  else
    s!"? {file.name}\n      : {file.details}"

theorem SourceFile.block_tree {file : SourceFile} (h : Yaml.DottedWord file.name.toList) :
    Yaml.Tree.block 6 file.tree = file.text.toList := by
  obtain ⟨value, htree, hblock, hvalue⟩ : ∃ value, file.tree = .mapping [(file.name, value)] ∧
      Yaml.Tree.block 8 value = file.details.toList ∧
      Yaml.Tree.valueLines 6 value = "\n        ".toList ++ file.details.toList := by
    refine ⟨_, rfl, ?_, ?_⟩ <;> unfold details <;> cases file.isIncluded <;> rfl
  have hentry : Yaml.Tree.block 6 file.tree = Yaml.Tree.entryLines 6 (file.name, value) := by
    rw [htree]
    rfl
  rw [hentry, Yaml.Tree.entryLines_eq_of_dottedWord h, hvalue]
  unfold text
  split
  · simp [toString]
  · have hcolumns : Yaml.Scalar.indentation 6 = "      ".toList := rfl
    simp [toString, hcolumns, Yaml.Tree.step, hblock]

theorem sequenceLines_files {files : List SourceFile} (hne : files ≠ [])
    (h : ∀ file ∈ files, Yaml.DottedWord file.name.toList) :
    Yaml.Scalar.indentation 4 ++ Yaml.Tree.sequenceLines 4 (files.map (·.tree)) =
      (files.map fun file => s!"    - {file.text}").flatMap String.toList := by
  have hcolumns : Yaml.Scalar.indentation 4 = "    ".toList := rfl
  induction files with
  | nil => exact absurd rfl hne
  | cons file rest ih =>
    rw [List.forall_mem_cons] at h
    have hitem : Yaml.Tree.block (4 + Yaml.Tree.step) file.tree = file.text.toList :=
      SourceFile.block_tree h.1
    rw [List.map_cons, List.map_cons, List.flatMap_cons]
    cases rest with
    | nil => simp [Yaml.Tree.sequenceLines, hitem, hcolumns, toString]
    | cons next rest =>
      rw [← ih (List.cons_ne_nil next rest) h.2]
      simp [Yaml.Tree.sequenceLines, hitem, hcolumns, toString]

/-- The lines of a descriptor. -/
theorem render_of_dottedWord {core : Core} (hne : core.files ≠ [])
    (h : ∀ file ∈ core.files, Yaml.DottedWord file.name.toList) :
    core.render =
      s!"{formatLine}\nname: {String.ofList (Yaml.Tree.scalarLine 2 core.name)}" ++
      s!"filesets:\n  {fileSet}:\n    files:\n" ++
      String.join (core.files.map fun file => s!"    - {file.text}") ++
      s!"targets:\n  {target}:\n    filesets:\n    - {fileSet}\n" := by
  obtain ⟨name, files⟩ := core
  have hname : Yaml.Tree.entryLines 0 ("name", .text name) =
      "name: ".toList ++ Yaml.Tree.scalarLine 2 name := rfl
  have hfiles : Yaml.Tree.entryLines 0 ("filesets", .mapping [(fileSet, .mapping
        [("files", .sequence (files.map (·.tree)))])]) =
      "filesets:\n  rtl:\n    files:\n".toList ++
        (Yaml.Scalar.indentation 4 ++ Yaml.Tree.sequenceLines 4 (files.map (·.tree))) := by
    cases files with
    | nil => exact absurd rfl hne
    | cons => rfl
  have htarget : Yaml.Tree.entryLines 0 ("targets", .mapping [(target, .mapping
        [("filesets", .sequence [.text fileSet])])]) =
      "targets:\n  default:\n    filesets:\n    - rtl\n".toList := rfl
  have hcolumns : Yaml.Scalar.indentation 0 = [] := rfl
  rw [sequenceLines_files hne h] at hfiles
  rw [← String.toList_inj]
  unfold render Yaml.Tree.document entries Yaml.Tree.mappingLines Yaml.Tree.mappingLines
    Yaml.Tree.mappingLines
  rw [hname, hfiles, htarget]
  simp [toString, String.toList_join, hcolumns, fileSet, target]

end Core

end RegMap
