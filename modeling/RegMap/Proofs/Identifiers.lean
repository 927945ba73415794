import Mathlib.Data.List.TakeWhile
import RegMap.Vlnv

/-!
# Which texts identify a core

A core is identified by three or four segments between colons, the third of which names the
generated files.  What the segments have to be like is said here without the reader.

* `Text.Splits` says what the segments of a text are, and `Text.splits_iff` that cutting the
  text finds them.
* `Vlnv.WellFormed` is the grammar of the segments; `Vlnv.Fault.Violated` says of each fault
  when there is one, whatever else is wrong.
* `Vlnv.ofSegments_eq_error_iff` and `Vlnv.fault?_eq_some_iff` find the first fault.
* `Vlnv.exact_ofText` puts them together: the texts of the grammar are read, and nothing of
  them is lost; of others the first fault is told.
-/

namespace RegMap

/-! ## Segments -/

namespace Text

/-- The segments of a text: none holds the separator, and joined with it they are the
text. -/
structure Splits (separator : Char) (text : String) (segments : List String) : Prop where
  ne_nil : segments ≠ []
  notMem : ∀ segment ∈ segments, separator ∉ segment.toList
  join_eq : (String.singleton separator).intercalate segments = text

theorem segments_eq_splitOn (separator : Char) (text : List Char) :
    segments separator text = text.splitOn separator := by
  fun_induction segments separator text with
  | case1 => rfl
  | case2 rest ih => simp [List.splitOn_cons_eq_if_modifyHead, ih]
  | case3 c rest _ hnil => exact absurd hnil (segments_ne_nil separator rest)
  | case4 c rest hc first more hcons ih =>
    rw [hcons] at ih
    simp [List.splitOn_cons_eq_if_modifyHead, hc, ← ih]

theorem segments_append_cons (separator : Char) (left right : List Char) :
    segments separator (left ++ separator :: right) =
      segments separator left ++ segments separator right := by
  simp only [segments_eq_splitOn, List.splitOn_append_cons_self]

theorem notMem_of_mem_segments {separator : Char} {text segment : List Char}
    (h : segment ∈ segments separator text) : separator ∉ segment := by
  fun_induction segments separator text generalizing segment with
  | case1 => simp_all
  | case2 rest ih =>
    rcases List.mem_cons.1 h with rfl | hrest
    · simp
    · exact ih hrest
  | case3 c rest _ hnil => exact absurd hnil (segments_ne_nil separator rest)
  | case4 c rest hc first more hcons ih =>
    rw [hcons] at ih
    rcases List.mem_cons.1 h with rfl | hmore
    · rw [List.mem_cons, not_or]
      exact ⟨Ne.symm hc, ih List.mem_cons_self⟩
    · exact ih (List.mem_cons_of_mem first hmore)

/-- A text has its segments and no others. -/
theorem splits_iff {separator : Char} {text : String} {parts : List String} :
    Splits separator text parts ↔
      parts = (segments separator text.toList).map String.ofList := by
  constructor
  · rintro ⟨hne, hnotMem, rfl⟩
    have hparts : ([separator].intercalate (parts.map String.toList)).splitOn separator =
        parts.map String.toList := by
      refine List.splitOn_intercalate separator ?_ (by simpa using hne)
      simpa using hnotMem
    simp [segments_eq_splitOn, hparts, Function.comp_def]
  · rintro rfl
    refine ⟨by simp [segments_ne_nil], ?_, ?_⟩
    · rw [List.forall_mem_map]
      intro segment hsegment
      rw [String.toList_ofList]
      exact notMem_of_mem_segments hsegment
    · rw [← String.toList_inj]
      simp [Function.comp_def, join_segments]

theorem Splits.unique {separator : Char} {text : String} {parts others : List String}
    (h : Splits separator text parts) (hothers : Splits separator text others) :
    parts = others :=
  (splits_iff.1 h).trans (splits_iff.1 hothers).symm

end Text

namespace Vlnv

/-! ## Names -/

/-- The letters of ASCII. -/
def IsLetter (c : Char) : Prop :=
  'A' ≤ c ∧ c ≤ 'Z' ∨ 'a' ≤ c ∧ c ≤ 'z'

/-- The digits of ASCII. -/
def IsDigit (c : Char) : Prop :=
  '0' ≤ c ∧ c ≤ '9'

instance : DecidablePred IsLetter := fun _ => inferInstanceAs (Decidable (_ ∨ _))

instance : DecidablePred IsDigit := fun _ => inferInstanceAs (Decidable (_ ∧ _))

/-- The texts of the form `[A-Za-z_][A-Za-z0-9_$]*`. -/
def SimpleIdentifier (text : String) : Prop :=
  ∃ first rest, text.toList = first :: rest ∧ (IsLetter first ∨ first = '_') ∧
    ∀ c ∈ rest, IsLetter c ∨ IsDigit c ∨ c = '_' ∨ c = '$'

/-- The part of a name before its first dash, or all of a name without one. -/
def BeforeDash (name part : String) : Prop :=
  '-' ∉ part.toList ∧ (name = part ∨ ∃ suffix, name = part ++ "-" ++ suffix)

theorem isAlpha_iff (c : Char) : c.isAlpha = true ↔ IsLetter c := by
  have hupper : c.isUpper = true ↔ 'A' ≤ c ∧ c ≤ 'Z' := decide_eq_true_iff
  have hlower : c.isLower = true ↔ 'a' ≤ c ∧ c ≤ 'z' :=
    Bool.and_eq_true_iff.trans (and_congr decide_eq_true_iff decide_eq_true_iff)
  exact Bool.or_eq_true_iff.trans (or_congr hupper hlower)

theorem isDigit_iff (c : Char) : c.isDigit = true ↔ IsDigit c :=
  Bool.and_eq_true_iff.trans (and_congr decide_eq_true_iff decide_eq_true_iff)

theorem isIdentifier_iff (text : String) :
    isIdentifier text.toList = true ↔ SimpleIdentifier text := by
  cases htext : text.toList with
  | nil => simp [isIdentifier, SimpleIdentifier, htext]
  | cons first rest =>
    simp only [isIdentifier, SimpleIdentifier, htext, isIdentifierStart, isIdentifierRest,
      Char.isAlphanum, isAlpha_iff, isDigit_iff, Bool.and_eq_true, Bool.or_eq_true,
      List.all_eq_true, decide_eq_true_eq, or_assoc]
    constructor
    · intro h
      exact ⟨first, rest, rfl, h⟩
    · rintro ⟨_, _, ⟨⟩, h⟩
      exact h

/-- A name has one part before its first dash. -/
theorem beforeDash_iff {name part : String} :
    BeforeDash name part ↔ part = String.ofList (name.toList.takeWhile (· ≠ '-')) := by
  rw [← String.toList_inj, String.toList_ofList]
  constructor
  · intro h
    have hpart : ∀ c ∈ part.toList, decide (c ≠ '-') = true := fun c hc =>
      decide_eq_true fun heq => h.1 (heq ▸ hc)
    rcases h.2 with rfl | ⟨suffix, rfl⟩
    · exact (List.takeWhile_eq_self_iff.2 hpart).symm
    · rw [String.toList_append, String.toList_append, List.append_assoc,
        List.takeWhile_append_of_pos hpart]
      exact (List.append_nil _).symm
  · intro hpart
    have hname : part.toList ++ name.toList.dropWhile (· ≠ '-') = name.toList := by
      rw [hpart, List.takeWhile_append_dropWhile]
    refine ⟨fun hdash => ?_, ?_⟩
    · rw [hpart] at hdash
      simpa using List.mem_takeWhile_imp hdash
    · cases hrest : name.toList.dropWhile (· ≠ '-') with
      | nil =>
        rw [hrest, List.append_nil] at hname
        exact .inl (String.toList_inj.1 hname.symm)
      | cons c suffix =>
        have hc : c = '-' := by
          have hhead := List.head?_dropWhile_not (· ≠ '-') name.toList
          rw [hrest] at hhead
          simpa using hhead
        refine .inr ⟨String.ofList suffix, ?_⟩
        rw [← String.toList_inj, ← hname, hrest, hc]
        simp

theorem beforeDash_moduleName (vlnv : Vlnv) : BeforeDash vlnv.name vlnv.moduleName :=
  beforeDash_iff.2 rfl

theorem BeforeDash.unique {name part other : String} (h : BeforeDash name part)
    (hother : BeforeDash name other) : part = other :=
  (beforeDash_iff.1 h).trans (beforeDash_iff.1 hother).symm

/-! ## Faults -/

/-- The grammar of the segments. -/
structure WellFormed (segments : List String) : Prop where
  length_eq : segments.length = 3 ∨ segments.length = 4
  name : ∃ name part, segments[2]? = some name ∧ BeforeDash name part ∧ SimpleIdentifier part ∧
    '/' ∉ name.toList ∧ '\\' ∉ name.toList

namespace Fault

/-- What is wrong with segments that have a fault.  They may have others as well. -/
def Violated (segments : List String) : Fault → Prop
  | tooFewSegments => segments.length < 3
  | tooManySegments => 4 < segments.length
  | emptyModuleName => ∃ name, segments[2]? = some name ∧ BeforeDash name ""
  | moduleNameNotIdentifier => ∃ name part,
      segments[2]? = some name ∧ BeforeDash name part ∧ ¬SimpleIdentifier part
  | pathSeparator => ∃ name,
      segments[2]? = some name ∧ ('/' ∈ name.toList ∨ '\\' ∈ name.toList)

/-- The faults in the order in which they are looked for. -/
def inOrder : List Fault :=
  [tooFewSegments, tooManySegments, emptyModuleName, moduleNameNotIdentifier, pathSeparator]

/-- Segments have a fault and none that comes before it. -/
def IsFirst (segments : List String) (fault : Fault) : Prop :=
  fault.Violated segments ∧
    ∀ earlier ∈ inOrder.takeWhile (· ≠ fault), ¬earlier.Violated segments

theorem IsFirst.unique {segments : List String} {fault other : Fault}
    (h : fault.IsFirst segments) (hother : other.IsFirst segments) : fault = other := by
  have horder : fault = other ∨ fault ∈ inOrder.takeWhile (· ≠ other) ∨
      other ∈ inOrder.takeWhile (· ≠ fault) := by
    cases fault <;> cases other <;> decide
  rcases horder with heq | hearlier | hearlier
  · exact heq
  · exact absurd h.1 (hother.2 fault hearlier)
  · exact absurd hother.1 (h.2 other hearlier)

end Fault

/-! ## Reading segments -/

/-- Three or four segments make one identifier. -/
theorem ofSegments_eq_ok_iff {segments : List String} {vlnv : Vlnv} :
    ofSegments segments = .ok vlnv ↔ vlnv.segments = segments := by
  constructor
  · intro h
    rcases segments with _ | ⟨_, _ | ⟨_, _ | ⟨_, _ | ⟨_, _ | ⟨_, rest⟩⟩⟩⟩⟩ <;> cases h <;> rfl
  · rintro rfl
    obtain ⟨vendor, library, name, version⟩ := vlnv
    cases version <;> rfl

theorem ofSegments_eq_error_iff {segments : List String} {fault : Fault} :
    ofSegments segments = .error fault ↔
      segments.length < 3 ∧ fault = .tooFewSegments ∨
        4 < segments.length ∧ fault = .tooManySegments := by
  rcases segments with _ | ⟨_, _ | ⟨_, _ | ⟨_, _ | ⟨_, _ | ⟨_, rest⟩⟩⟩⟩⟩
  case cons.cons.cons.cons.cons =>
    have hfew : ¬rest.length + 5 < 3 := by omega
    simp [ofSegments, hfew, eq_comm]
  all_goals simp [ofSegments, eq_comm]

section

variable (vlnv : Vlnv)

theorem length_segments : vlnv.segments.length = 3 ∨ vlnv.segments.length = 4 := by
  cases h : vlnv.version <;> simp [segments, h]

theorem getElem?_segments : vlnv.segments[2]? = some vlnv.name := rfl

theorem violated_emptyModuleName :
    Fault.Violated vlnv.segments .emptyModuleName ↔ vlnv.moduleName = "" := by
  constructor
  · rintro ⟨name, hname, hempty⟩
    cases hname
    exact (beforeDash_moduleName vlnv).unique hempty
  · intro hempty
    exact ⟨vlnv.name, rfl, hempty ▸ beforeDash_moduleName vlnv⟩

theorem violated_moduleNameNotIdentifier :
    Fault.Violated vlnv.segments .moduleNameNotIdentifier ↔
      ¬SimpleIdentifier vlnv.moduleName := by
  constructor
  · rintro ⟨name, part, hname, hpart, hnot⟩
    cases hname
    rwa [(beforeDash_moduleName vlnv).unique hpart]
  · exact fun hnot => ⟨vlnv.name, vlnv.moduleName, rfl, beforeDash_moduleName vlnv, hnot⟩

theorem violated_pathSeparator :
    Fault.Violated vlnv.segments .pathSeparator ↔
      '/' ∈ vlnv.name.toList ∨ '\\' ∈ vlnv.name.toList := by
  simp [Fault.Violated, getElem?_segments]

theorem any_separator_iff :
    (vlnv.coreName.toList.any fun c => c = '/' || c = '\\') = true ↔
      '/' ∈ vlnv.name.toList ∨ '\\' ∈ vlnv.name.toList := by
  simp [coreName, and_or_left, exists_or]

/-- Of several faults the first is found. -/
theorem fault?_eq_some_iff {fault : Fault} :
    vlnv.fault? = some fault ↔ fault.IsFirst vlnv.segments := by
  have hlength := vlnv.length_segments
  have hfew : ¬Fault.Violated vlnv.segments .tooFewSegments := by
    simp only [Fault.Violated]
    omega
  have hmany : ¬Fault.Violated vlnv.segments .tooManySegments := by
    simp only [Fault.Violated]
    omega
  have hempty := vlnv.violated_emptyModuleName
  have hidentifier := vlnv.violated_moduleNameNotIdentifier
  rw [← isIdentifier_iff] at hidentifier
  have hseparator := vlnv.violated_pathSeparator
  rw [← any_separator_iff] at hseparator
  rw [Fault.IsFirst, fault?]
  by_cases h1 : vlnv.moduleName = ""
  · cases fault <;> simp [Fault.inOrder, *]
  by_cases h2 : isIdentifier vlnv.moduleName.toList = true
  · by_cases h3 : (vlnv.coreName.toList.any fun c => c = '/' || c = '\\') = true <;>
      cases fault <;> simp [Fault.inOrder, -List.any_eq_true, *]
  · cases fault <;> simp [Fault.inOrder, *]

theorem wellFormed_segments_iff : WellFormed vlnv.segments ↔
    SimpleIdentifier vlnv.moduleName ∧ '/' ∉ vlnv.name.toList ∧ '\\' ∉ vlnv.name.toList := by
  constructor
  · rintro ⟨-, name, part, hname, hpart, h⟩
    cases hname
    rwa [(beforeDash_moduleName vlnv).unique hpart]
  · exact fun h =>
      ⟨vlnv.length_segments, vlnv.name, vlnv.moduleName, rfl, beforeDash_moduleName vlnv, h⟩

theorem fault?_eq_none_iff : vlnv.fault? = none ↔ WellFormed vlnv.segments := by
  rw [wellFormed_segments_iff, ← not_or, ← any_separator_iff, ← isIdentifier_iff, fault?]
  by_cases hempty : vlnv.moduleName = ""
  · simp [hempty, isIdentifier]
  · cases isIdentifier vlnv.moduleName.toList <;> simp [hempty]

end

/-! ## Reading texts -/

/-- How a text is read: the texts of the grammar are identifiers, which keep all that was
written, and of others the first fault is told. -/
structure Exact (text : String) : Prop where
  ok_iff : (∃ vlnv, ofText text = .ok vlnv) ↔
    ∃ segments, Text.Splits ':' text segments ∧ WellFormed segments
  kept : ∀ vlnv, ofText text = .ok vlnv →
    Text.Splits ':' text ([vlnv.vendor, vlnv.library, vlnv.name] ++ vlnv.version.toList) ∧
      vlnv.text = text ∧ vlnv.coreName = vlnv.name ∧ BeforeDash vlnv.name vlnv.moduleName
  error_iff : ∀ malformed, ofText text = .error malformed ↔
    malformed.text = text ∧
      ∃ segments, Text.Splits ':' text segments ∧ malformed.fault.IsFirst segments

theorem ofText_eq_ok_iff {text : String} {vlnv : Vlnv} :
    ofText text = .ok vlnv ↔ Text.Splits ':' text vlnv.segments ∧ WellFormed vlnv.segments := by
  rw [Text.splits_iff, ← ofSegments_eq_ok_iff, ← fault?_eq_none_iff]
  constructor
  · intro h
    rw [ofText] at h
    split at h
    · cases h
    · rename_i found hfound
      split at h
      · cases h
      · rename_i hnone
        cases h
        exact ⟨hfound, hnone⟩
  · rintro ⟨hsegments, hnone⟩
    rw [ofText, hsegments]
    dsimp only
    rw [hnone]

/-- What is told of a text that is refused is its first fault. -/
theorem isFirst_of_ofText {text : String} {malformed : Malformed}
    (h : ofText text = .error malformed) :
    malformed.text = text ∧
      ∃ segments, Text.Splits ':' text segments ∧ malformed.fault.IsFirst segments := by
  rw [ofText] at h
  split at h
  · rename_i fault hfault
    cases h
    refine ⟨rfl, _, Text.splits_iff.2 rfl, ?_⟩
    rcases ofSegments_eq_error_iff.1 hfault with ⟨hfew, rfl⟩ | ⟨hmany, rfl⟩
    · exact ⟨hfew, nofun⟩
    · refine ⟨hmany, fun earlier hearlier => ?_⟩
      rw [List.mem_singleton.1 hearlier, Fault.Violated]
      omega
  · rename_i found hfound
    split at h
    · rename_i fault hfault
      cases h
      refine ⟨rfl, found.segments, ?_, found.fault?_eq_some_iff.1 hfault⟩
      exact Text.splits_iff.2 (ofSegments_eq_ok_iff.1 hfound)
    · cases h

theorem exact_ofText (text : String) : Exact text where
  ok_iff := by
    constructor
    · rintro ⟨vlnv, h⟩
      exact ⟨vlnv.segments, ofText_eq_ok_iff.1 h⟩
    · rintro ⟨segments, hsplits, hwell⟩
      cases hsegments : ofSegments segments with
      | error fault =>
        have hlength := hwell.length_eq
        have hfault := ofSegments_eq_error_iff.1 hsegments
        omega
      | ok vlnv =>
        rw [← ofSegments_eq_ok_iff.1 hsegments] at hsplits hwell
        exact ⟨vlnv, ofText_eq_ok_iff.2 ⟨hsplits, hwell⟩⟩
  kept := by
    intro vlnv h
    have hsplits := (ofText_eq_ok_iff.1 h).1
    exact ⟨hsplits, hsplits.join_eq, rfl, beforeDash_moduleName vlnv⟩
  error_iff := by
    intro malformed
    refine ⟨isFirst_of_ofText, ?_⟩
    rintro ⟨htext, segments, hsplits, hfirst⟩
    cases hread : ofText text with
    | ok vlnv =>
      obtain ⟨hsplits', hwell⟩ := ofText_eq_ok_iff.1 hread
      rw [hsplits.unique hsplits', ← fault?_eq_some_iff,
        (fault?_eq_none_iff vlnv).2 hwell] at hfirst
      cases hfirst
    | error found =>
      obtain ⟨htext', segments', hsplits', hfirst'⟩ := isFirst_of_ofText hread
      rw [hsplits'.unique hsplits] at hfirst'
      have hfault := hfirst'.unique hfirst
      cases found
      cases malformed
      simp_all

/-- The name is empty up to its dash, which is told before the slash after it. -/
example : ofText "acme::-1/2:" = .error ⟨"acme::-1/2:", .emptyModuleName⟩ := by rfl

/-- Behind the dash anything goes but the separators of paths, and a version may be empty. -/
example : ofText "acme::timer-1 é:" = .ok ⟨"acme", "", "timer-1 é", some ""⟩ := by rfl

end Vlnv

end RegMap
