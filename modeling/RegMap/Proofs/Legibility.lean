import RegMap.Proofs.SourceLines

/-!
# Verilog items told by their lines

An item whose names are identifiers can be read back from its lines, whatever comes behind them.

* `Verilog.declarator_inj`: the name of a declaration is told between the ranges of its bits and of
  its elements, of which either may be missing.
* `Verilog.Legible` are the kinds of items that can be read one after the other.
  `Verilog.Legible.flatMap_append_inj`, `Verilog.Legible.blockOf_append_inj` and
  `Verilog.Legible.commaLines_append_inj` read a list of them, a section, and a list with commas.
* `Verilog.legible_port`, `Verilog.legible_signal`, `Verilog.legible_assignment`,
  `Verilog.legible_connection` and `Verilog.legible_instance`: each kind of item is legible.
-/

namespace RegMap

/-! ## Cuts -/

namespace Text

/-- Where the characters of a kind end, a text is cut in one way only. -/
theorem append_inj_of_forall {p : Char → Prop} {left left' right right' : List Char}
    (hleft : ∀ c ∈ left, p c) (hleft' : ∀ c ∈ left', p c) (hright : ∀ c ∈ right.head?, ¬p c)
    (hright' : ∀ c ∈ right'.head?, ¬p c) (h : left ++ right = left' ++ right') :
    left = left' ∧ right = right' := by
  induction left generalizing left' with
  | nil =>
    cases left' with
    | nil => exact ⟨rfl, h⟩
    | cons c rest =>
      rw [List.nil_append] at h
      refine absurd (hleft' c List.mem_cons_self) (hright c ?_)
      rw [h]
      rfl
  | cons c rest ih =>
    rw [List.forall_mem_cons] at hleft
    cases left' with
    | nil =>
      rw [List.nil_append] at h
      refine absurd hleft.1 (hright' c ?_)
      rw [← h]
      rfl
    | cons c' rest' =>
      rw [List.forall_mem_cons] at hleft'
      rw [List.cons_append, List.cons_append, List.cons.injEq] at h
      obtain ⟨rfl, hrest⟩ := ih hleft.2 hleft'.2 h.2
      exact ⟨congrArg (· :: rest) h.1, hrest⟩

/-- A number ends where its digits do. -/
theorem toDigits_append_inj {m n : Nat} {right right' : List Char}
    (hright : ∀ c ∈ right.head?, c.isDigit = false)
    (hright' : ∀ c ∈ right'.head?, c.isDigit = false)
    (h : Nat.toDigits 10 m ++ right = Nat.toDigits 10 n ++ right') : m = n ∧ right = right' := by
  have hdigits (k : Nat) : ∀ c ∈ Nat.toDigits 10 k, c.isDigit = true :=
    fun c hc => Nat.isDigit_of_mem_toDigits (by decide) (by decide) hc
  have hcut := append_inj_of_forall (hdigits m) (hdigits n)
    (fun c hc => by simp [hright c hc]) (fun c hc => by simp [hright' c hc]) h
  refine ⟨?_, hcut.2⟩
  rw [← Nat.ofDigitChars_ten_toDigits (n := m), hcut.1, Nat.ofDigitChars_ten_toDigits]

end Text

namespace Vlnv

/-- The characters of identifiers. -/
def NameCharacter (c : Char) : Prop :=
  IsLetter c ∨ IsDigit c ∨ c = '_' ∨ c = '$'

instance : DecidablePred NameCharacter := fun _ => inferInstanceAs (Decidable (_ ∨ _))

theorem not_nameCharacter_head? {c : Char} (hc : ¬NameCharacter c) (rest : List Char) :
    ∀ first ∈ (c :: rest).head?, ¬NameCharacter first := by
  rintro _ ⟨⟩
  exact hc

namespace SimpleIdentifier

variable {name name' : String}

theorem nameCharacter (h : SimpleIdentifier name) : ∀ c ∈ name.toList, NameCharacter c := by
  obtain ⟨first, rest, hname, hfirst, hrest⟩ := h
  rw [hname, List.forall_mem_cons]
  refine ⟨?_, hrest⟩
  rcases hfirst with hletter | hunderscore
  · exact .inl hletter
  · exact .inr (.inr (.inl hunderscore))

/-- An identifier ends where its characters do. -/
theorem append_inj (h : SimpleIdentifier name) (h' : SimpleIdentifier name')
    {right right' : List Char} (hright : ∀ c ∈ right.head?, ¬NameCharacter c)
    (hright' : ∀ c ∈ right'.head?, ¬NameCharacter c)
    (heq : name.toList ++ right = name'.toList ++ right') : name = name' ∧ right = right' := by
  have hcut := Text.append_inj_of_forall h.nameCharacter h'.nameCharacter hright hright' heq
  exact ⟨String.toList_inj.1 hcut.1, hcut.2⟩

/-- An identifier behind a known text is told, if what comes next does not continue it. -/
theorem append_right_inj (h : SimpleIdentifier name) (h' : SimpleIdentifier name')
    {front right right' : String} (hright : ∀ c ∈ right.toList.head?, ¬NameCharacter c)
    (hright' : ∀ c ∈ right'.toList.head?, ¬NameCharacter c)
    (heq : front ++ name ++ right = front ++ name' ++ right') : name = name' ∧ right = right' := by
  have hlist := congrArg String.toList heq
  simp only [String.toList_append, List.append_assoc] at hlist
  obtain ⟨hname, hrights⟩ := h.append_inj h' hright hright' (List.append_cancel_left hlist)
  exact ⟨hname, String.toList_inj.1 hrights⟩

/-- No identifier begins with another character, or is empty. -/
theorem ne_cons_append (h : SimpleIdentifier name) {c : Char} (hc : ¬NameCharacter c)
    (right rest : List Char) : name.toList ++ right ≠ c :: rest := by
  intro heq
  obtain ⟨first, more, hname, -, -⟩ := id h
  rw [hname, List.cons_append, List.cons.injEq] at heq
  refine hc (heq.1 ▸ h.nameCharacter first ?_)
  simp [hname]

theorem notMem (h : SimpleIdentifier name) {c : Char} (hc : ¬NameCharacter c) :
    c ∉ name.toList := fun hmem => hc (h.nameCharacter c hmem)

end SimpleIdentifier

end Vlnv

namespace Verilog

open Vlnv (SimpleIdentifier NameCharacter)

/-! ## Declarators -/

theorem toList_vectorRange {width : UInt32} (h : width > 1) :
    (vectorRange width).toList =
      '[' :: (Nat.toDigits 10 (width - 1).toNat ++ [':', '0', ']', ' ']) := by
  rw [vectorRange, if_pos h]
  simp [toString, Nat.toList_repr]

theorem toList_arrayRange_some (depth : UInt32) :
    (arrayRange (some depth)).toList = ' ' :: '[' :: (Nat.toDigits 10 depth.toNat ++ [']']) := by
  simp [arrayRange, toString, Nat.toList_repr]

theorem arrayRange_injective : Function.Injective arrayRange := by
  intro depth depth' h
  have hlist := congrArg String.toList h
  cases depth with
  | none =>
    cases depth' with
    | none => rfl
    | some depth' =>
      rw [toList_arrayRange_some] at hlist
      cases hlist
  | some depth =>
    cases depth' with
    | none =>
      rw [toList_arrayRange_some] at hlist
      cases hlist
    | some depth' =>
      rw [toList_arrayRange_some, toList_arrayRange_some, List.cons.injEq, List.cons.injEq] at hlist
      have hdepth := (Text.toDigits_append_inj (by simp) (by simp) hlist.2.2).1
      rw [UInt32.toNat_inj.1 hdepth]

theorem nameCharacter_head?_arrayRange (depth : Option UInt32) :
    ∀ c ∈ (arrayRange depth).toList.head?, ¬NameCharacter c := by
  cases depth with
  | none => simp [arrayRange]
  | some depth =>
    rw [toList_arrayRange_some]
    exact Vlnv.not_nameCharacter_head? (by decide) _

/-- The name of a declaration is told between its ranges. -/
theorem declarator_inj {width width' : UInt32} {ident ident' : String}
    {depth depth' : Option UInt32} (hwidth : 1 ≤ width) (hwidth' : 1 ≤ width')
    (hident : SimpleIdentifier ident) (hident' : SimpleIdentifier ident')
    (h : (vectorRange width ++ ident ++ arrayRange depth).toList =
      (vectorRange width' ++ ident' ++ arrayRange depth').toList) :
    width = width' ∧ ident = ident' ∧ depth = depth' := by
  simp only [String.toList_append, List.append_assoc] at h
  have hbracket : ¬NameCharacter '[' := by decide
  have hname (heq : ident.toList ++ (arrayRange depth).toList =
      ident'.toList ++ (arrayRange depth').toList) : ident = ident' ∧ depth = depth' := by
    obtain ⟨hname, hrange⟩ := hident.append_inj hident' (nameCharacter_head?_arrayRange depth)
      (nameCharacter_head?_arrayRange depth') heq
    exact ⟨hname, arrayRange_injective (String.toList_inj.1 hrange)⟩
  by_cases hvector : width > 1
  · rw [toList_vectorRange hvector] at h
    by_cases hvector' : width' > 1
    · rw [toList_vectorRange hvector'] at h
      simp only [List.cons_append, List.append_assoc, List.cons.injEq, true_and] at h
      obtain ⟨hmsb, hrest⟩ := Text.toDigits_append_inj (by simp) (by simp) h
      have hwidths : width = width' := by
        have hminus := UInt32.toNat_inj.1 hmsb
        rw [← UInt32.sub_add_cancel width 1, hminus, UInt32.sub_add_cancel]
      exact ⟨hwidths, hname (by simpa using hrest)⟩
    · rw [vectorRange, if_neg hvector'] at h
      exact absurd h.symm (hident'.ne_cons_append hbracket _ _)
  · rw [vectorRange, if_neg hvector] at h
    by_cases hvector' : width' > 1
    · rw [toList_vectorRange hvector'] at h
      exact absurd h (hident.ne_cons_append hbracket _ _)
    · rw [vectorRange, if_neg hvector'] at h
      have hone := UInt32.le_antisymm (UInt32.not_lt.1 hvector) hwidth
      have hone' := UInt32.le_antisymm (UInt32.not_lt.1 hvector') hwidth'
      exact ⟨hone.trans hone'.symm, hname h⟩

/-! ## Lines -/

/-- A port with an identifier as its name and at least one bit. -/
structure PortDeclaration.WellFormed (port : PortDeclaration) : Prop where
  ident : SimpleIdentifier port.ident
  width : 1 ≤ port.width

/-- A signal with an identifier as its name and at least one bit. -/
structure SignalDeclaration.WellFormed (signal : SignalDeclaration) : Prop where
  ident : SimpleIdentifier signal.ident
  width : 1 ≤ signal.width

/-- An assignment on one line, of which the target does not have the sign of one. -/
structure Assignment.WellFormed (assignment : Assignment) : Prop where
  target_line : '\n' ∉ assignment.target.toList
  target_sign : '=' ∉ assignment.target.toList
  source_line : '\n' ∉ assignment.source.toList

/-- A connection of an identifier, on one line. -/
structure Connection.WellFormed (connection : Connection) : Prop where
  name : SimpleIdentifier connection.name
  value_line : '\n' ∉ connection.value.toList

/-- An instance with identifiers as its names.  It does not begin like another item. -/
structure Instance.WellFormed (inst : Instance) : Prop where
  definition : SimpleIdentifier inst.definition
  definition_notMem : inst.definition ∉ ["wire", "logic", "assign"]
  ident : SimpleIdentifier inst.ident
  parameters : ∀ connection ∈ inst.parameters, connection.WellFormed
  ports : ∀ connection ∈ inst.ports, connection.WellFormed

theorem PortDeclaration.line_inj {port port' : PortDeclaration} (h : port.WellFormed)
    (h' : port'.WellFormed) (heq : port.line = port'.line) : port = port' := by
  have hlist := congrArg String.toList heq
  simp only [line, text, String.toList_append, List.append_assoc, toString] at hlist
  rw [List.append_cancel_left_eq] at hlist
  have hlength : (directionText port.direction).toList.length =
      (directionText port'.direction).toList.length := by
    cases port.direction <;> cases port'.direction <;> decide
  obtain ⟨hdirection, hrest⟩ := List.append_inj hlist hlength
  rw [List.append_cancel_left_eq] at hrest
  have hdirections : port.direction = port'.direction := by
    revert hdirection
    cases port.direction <;> cases port'.direction <;> decide
  obtain ⟨hwidth, hident, hdepth⟩ :=
    declarator_inj h.width h'.width h.ident h'.ident (by simpa using hrest)
  cases port
  cases port'
  simp_all

theorem SignalDeclaration.line_inj {signal signal' : SignalDeclaration} (h : signal.WellFormed)
    (h' : signal'.WellFormed) (heq : signal.line = signal'.line) : signal = signal' := by
  have hlist := congrArg String.toList heq
  simp only [line, text, String.toList_append, List.append_assoc, toString] at hlist
  rw [List.append_cancel_left_eq] at hlist
  have hnets : signal.net = signal'.net := by
    revert hlist
    cases signal.net <;> cases signal'.net <;> simp [Net.keyword]
  rw [hnets, List.append_cancel_left_eq, List.append_cancel_left_eq] at hlist
  have hrest : (vectorRange signal.width ++ signal.ident ++ arrayRange signal.depth).toList =
      (vectorRange signal'.width ++ signal'.ident ++ arrayRange signal'.depth).toList := by
    rw [← List.append_cancel_right_eq _ [';']]
    simpa using hlist
  obtain ⟨hwidth, hident, hdepth⟩ := declarator_inj h.width h'.width h.ident h'.ident hrest
  cases signal
  cases signal'
  simp_all

theorem Assignment.line_inj {assignment assignment' : Assignment} (h : assignment.WellFormed)
    (h' : assignment'.WellFormed) (heq : assignment.line = assignment'.line) :
    assignment = assignment' := by
  have hlist := congrArg String.toList heq
  have hsides (a : Assignment) : a.line.toList = (indentation ++ "assign ").toList ++
      ((a.target ++ " ").toList ++ '=' :: (" " ++ a.source ++ ";").toList) := by
    simp [line, text, toString]
  rw [hsides, hsides, List.append_cancel_left_eq] at hlist
  have hleft (a : Assignment) (ha : a.WellFormed) : ∀ c ∈ (a.target ++ " ").toList, c ≠ '=' := by
    rintro c hc rfl
    exact ha.target_sign (by simpa using hc)
  obtain ⟨htarget, hsource⟩ := Text.append_inj_of_forall (hleft _ h) (hleft _ h') (by simp)
    (by simp) hlist
  have htargets : assignment.target = assignment'.target := by
    simpa [String.toList_inj] using htarget
  have hsources : assignment.source = assignment'.source := by
    simpa [String.toList_inj] using hsource
  cases assignment
  cases assignment'
  simp_all

theorem Connection.line_inj {connection connection' : Connection} (h : connection.WellFormed)
    (h' : connection'.WellFormed) (heq : connection.line = connection'.line) :
    connection = connection' := by
  have hlist := congrArg String.toList heq
  have hparts (c : Connection) : c.line.toList = (indentation ++ indentation ++ ".").toList ++
      (c.name.toList ++ '(' :: (c.value ++ ")").toList) := by
    simp [line, text, toString]
  rw [hparts, hparts, List.append_cancel_left_eq] at hlist
  have hparen (rest : List Char) := Vlnv.not_nameCharacter_head? (c := '(') (by decide) rest
  obtain ⟨hname, hvalue⟩ := h.name.append_inj h'.name (hparen _) (hparen _) hlist
  have hvalues : connection.value = connection'.value := by
    simpa [String.toList_inj] using hvalue
  cases connection
  cases connection'
  simp_all

/-! ## Lists of items -/

theorem Begins.append {words : List String} {line : String} (h : Begins words line)
    (more : String) : Begins words (line ++ more) := by
  obtain ⟨word, hword, hprefix⟩ := h
  refine ⟨word, hword, ?_⟩
  rw [String.toList_append]
  exact hprefix.trans (List.prefix_append _ _)

theorem Begins.mono {words words' : List String} {line : String} (h : Begins words line)
    (hwords : words ⊆ words') : Begins words' line := by
  obtain ⟨word, hword, hprefix⟩ := h
  exact ⟨word, hwords hword, hprefix⟩

theorem exists_commaLines_cons (entry : String) (entries : List String) :
    ∃ comma more, commaLines (entry :: entries) = (entry ++ comma) :: more := by
  cases entries with
  | nil => exact ⟨"", [], by simp [commaLines]⟩
  | cons next rest => exact ⟨",", _, rfl⟩

/-- Items can be read one after the other if each has lines that begin with some words, and it can
be told from these lines whatever comes behind them. -/
structure Legible {α : Type} (valid : α → Prop) (words : List String) (code : α → List String) :
    Prop where
  exists_first : ∀ a, valid a → ∃ first more, code a = first :: more ∧ Begins words first
  inj : ∀ a b, valid a → valid b → ∀ rest rest', code a ++ rest = code b ++ rest' →
    a = b ∧ rest = rest'

namespace Legible

variable {α : Type} {valid : α → Prop} {words : List String}

/-- Items are told from their lines and the rest, if the rest begins in another way. -/
theorem flatMap_append_inj {code : α → List String} (hcode : Legible valid words code)
    {items items' : List α} (hitems : ∀ a ∈ items, valid a) (hitems' : ∀ a ∈ items', valid a)
    {rest rest' : List String} (hrest : ∀ line ∈ rest.head?, ¬Begins words line)
    (hrest' : ∀ line ∈ rest'.head?, ¬Begins words line)
    (h : items.flatMap code ++ rest = items'.flatMap code ++ rest') :
    items = items' ∧ rest = rest' := by
  -- a rest is no item
  have hdistinct {a : α} (ha : valid a) {rest : List String}
      (hrest : ∀ line ∈ rest.head?, ¬Begins words line) (more : List String) :
      rest ≠ code a ++ more := by
    rintro rfl
    obtain ⟨first, behind, hfirst, hbegins⟩ := hcode.exists_first a ha
    exact hrest first (by simp [hfirst]) hbegins
  induction items generalizing items' with
  | nil =>
    cases items' with
    | nil => exact ⟨rfl, h⟩
    | cons b items' =>
      rw [List.forall_mem_cons] at hitems'
      rw [List.flatMap_cons, List.append_assoc] at h
      exact absurd h (hdistinct hitems'.1 hrest _)
  | cons a items ih =>
    rw [List.forall_mem_cons] at hitems
    rw [List.flatMap_cons, List.append_assoc] at h
    cases items' with
    | nil => exact absurd h.symm (hdistinct hitems.1 hrest' _)
    | cons b items' =>
      rw [List.forall_mem_cons] at hitems'
      rw [List.flatMap_cons, List.append_assoc] at h
      obtain ⟨rfl, hbehind⟩ := hcode.inj a b hitems.1 hitems'.1 _ _ h
      obtain ⟨rfl, hrests⟩ := ih hitems.2 hitems'.2 hbehind
      exact ⟨rfl, hrests⟩

/-- Items that are told by single lines. -/
theorem of_line {line : α → String} (hbegins : ∀ a, valid a → Begins words (line a))
    (hinj : ∀ a b, valid a → valid b → line a = line b → a = b) :
    Legible valid words fun a => [line a] where
  exists_first := fun a ha => ⟨line a, [], rfl, hbegins a ha⟩
  inj := by
    intro a b ha hb rest rest' h
    rw [List.singleton_append, List.singleton_append, List.cons.injEq] at h
    exact ⟨hinj a b ha hb h.1, h.2⟩

variable {line : α → String} (hline : Legible valid words fun a => [line a])
  {items items' : List α} (hitems : ∀ a ∈ items, valid a) (hitems' : ∀ a ∈ items', valid a)
  {rest rest' : List String} (hempty : ¬Begins words "")

include hline

theorem begins {a : α} (ha : valid a) : Begins words (line a) := by
  obtain ⟨first, more, hfirst, hbegins⟩ := hline.exists_first a ha
  rw [List.cons.injEq] at hfirst
  exact hfirst.1 ▸ hbegins

theorem line_inj {a b : α} (ha : valid a) (hb : valid b) (h : line a = line b) : a = b :=
  (hline.inj a b ha hb [] [] (by simp [h])).1

include hitems hitems' hempty

/-- Items are told from a section of their lines, or from there being none. -/
theorem blockOf_append_inj (hrest : ∀ first ∈ rest.head?, ¬Begins words first)
    (hrest' : ∀ first ∈ rest'.head?, ¬Begins words first)
    (h : (Document.blockOf (items.map line)).flatMap (· ++ [""]) ++ rest =
      (Document.blockOf (items'.map line)).flatMap (· ++ [""]) ++ rest') :
    items = items' ∧ rest = rest' := by
  have hblock (items : List α) (rest : List String) :
      (Document.blockOf (items.map line)).flatMap (· ++ [""]) ++ rest =
        items.flatMap (fun a => [line a]) ++ if items = [] then rest else "" :: rest := by
    cases items with
    | nil => rfl
    | cons a items => simp [Document.blockOf, List.map_eq_flatMap]
  rw [hblock, hblock] at h
  have hbegins (items : List α) {rest : List String}
      (hrest : ∀ first ∈ rest.head?, ¬Begins words first) :
      ∀ first ∈ (if items = [] then rest else "" :: rest).head?, ¬Begins words first := by
    split
    · exact hrest
    · rintro _ ⟨⟩
      exact hempty
  obtain ⟨rfl, hrests⟩ :=
    hline.flatMap_append_inj hitems hitems' (hbegins items hrest) (hbegins items' hrest') h
  refine ⟨rfl, ?_⟩
  split at hrests
  · exact hrests
  · exact (List.cons.inj hrests).2

/-- Items are told from a list of their lines with commas in between. -/
theorem commaLines_append_inj (hrest : ∀ first ∈ rest.head?, ¬Begins words first)
    (hrest' : ∀ first ∈ rest'.head?, ¬Begins words first)
    (h : commaLines (items.map line) ++ rest = commaLines (items'.map line) ++ rest') :
    items = items' ∧ rest = rest' := by
  -- what does not begin like an item is not the list of some items
  have hdistinct {a : α} (ha : valid a) {rest : List String}
      (hrest : ∀ first ∈ rest.head?, ¬Begins words first) (entries more : List String) :
      rest ≠ commaLines (line a :: entries) ++ more := by
    rintro rfl
    obtain ⟨comma, behind, hfirst⟩ := exists_commaLines_cons (line a) entries
    exact hrest _ (by simp [hfirst]) ((hline.begins ha).append comma)
  have hnil (rest : List String) : ∀ first ∈ ("" :: rest).head?, ¬Begins words first := by
    rintro _ ⟨⟩
    exact hempty
  induction items generalizing items' with
  | nil =>
    cases items' with
    | nil => exact ⟨rfl, List.append_cancel_left h⟩
    | cons b items' => exact absurd h (hdistinct (hitems' b List.mem_cons_self) (hnil rest) _ _)
  | cons a items ih =>
    rw [List.forall_mem_cons] at hitems
    cases items' with
    | nil => exact absurd h.symm (hdistinct hitems.1 (hnil rest') _ _)
    | cons b items' =>
      rw [List.forall_mem_cons] at hitems'
      cases items with
      | nil =>
        cases items' with
        | nil =>
          have hlines := List.cons.inj h
          exact ⟨congrArg ([·]) (hline.line_inj hitems.1 hitems'.1 hlines.1), hlines.2⟩
        | cons next items' =>
          exact absurd (List.cons.inj h).2 (hdistinct (hitems'.2 next List.mem_cons_self) hrest _ _)
      | cons next items =>
        cases items' with
        | nil =>
          exact absurd (List.cons.inj h).2.symm
            (hdistinct (hitems.2 next List.mem_cons_self) hrest' _ _)
        | cons next' items' =>
          obtain ⟨hcomma, hbehind⟩ := List.cons.inj h
          obtain ⟨hitems_eq, hrests⟩ := ih hitems.2 hitems'.2 hbehind
          have hlines : line a = line b := by simpa [String.toList_inj] using hcomma
          exact ⟨List.cons_eq_cons.2 ⟨hline.line_inj hitems.1 hitems'.1 hlines, hitems_eq⟩, hrests⟩

end Legible

/-! ## Kinds of items -/

theorem legible_header : Legible (fun _ => True) ["// "] fun entry => ["// " ++ entry] :=
  .of_line (fun entry _ => ⟨"// ", by simp, by simp⟩) fun entry entry' _ _ h => by
    simpa [String.toList_inj] using h

theorem legible_port :
    Legible PortDeclaration.WellFormed [indentation] fun port => [port.line] :=
  .of_line (fun port _ => ⟨indentation, by simp, by simp [PortDeclaration.line]⟩)
    fun _ _ => PortDeclaration.line_inj

theorem begins_signal (signal : SignalDeclaration) :
    Begins ["    wire ", "    logic "] signal.line := by
  rw [SignalDeclaration.line, SignalDeclaration.text]
  cases signal.net with
  | wire => exact ⟨"    wire ", by simp, by simp [Net.keyword, indentation, toString]⟩
  | logic => exact ⟨"    logic ", by simp, by simp [Net.keyword, indentation, toString]⟩

theorem legible_signal :
    Legible SignalDeclaration.WellFormed ["    wire ", "    logic "] fun signal =>
      [signal.line] :=
  .of_line (fun signal _ => begins_signal signal) fun _ _ => SignalDeclaration.line_inj

theorem begins_assignment (assignment : Assignment) : Begins ["    assign "] assignment.line :=
  ⟨"    assign ", by simp, by simp [Assignment.line, Assignment.text, indentation, toString]⟩

theorem legible_assignment :
    Legible Assignment.WellFormed ["    assign "] fun assignment => [assignment.line] :=
  .of_line (fun assignment _ => begins_assignment assignment) fun _ _ => Assignment.line_inj

theorem legible_connection :
    Legible Connection.WellFormed ["        "] fun connection => [connection.line] :=
  .of_line (fun connection _ => ⟨"        ", by simp, by simp [Connection.line, indentation]⟩)
    fun _ _ => Connection.line_inj

/-- An instance begins with its definition. -/
theorem Instance.exists_lines (inst : Instance) :
    ∃ more rest, inst.lines = (indentation ++ inst.definition ++ " " ++ more) :: rest := by
  rw [lines, opening]
  split
  · exact ⟨inst.ident ++ " (", _, rfl⟩
  · exact ⟨"#(", _, rfl⟩

theorem Instance.definition_inj {definition definition' more more' : String}
    (h : SimpleIdentifier definition) (h' : SimpleIdentifier definition')
    (heq : indentation ++ definition ++ " " ++ more = indentation ++ definition' ++ " " ++ more') :
    definition = definition' ∧ more = more' := by
  have hblank (more : String) : ∀ c ∈ (" " ++ more).toList.head?, ¬NameCharacter c := by
    rw [String.toList_append]
    exact Vlnv.not_nameCharacter_head? (by decide) _
  have hsplit : indentation ++ definition ++ (" " ++ more) =
      indentation ++ definition' ++ (" " ++ more') := by
    simpa [String.append_assoc] using heq
  obtain ⟨hdefinition, hmore⟩ := h.append_right_inj h' (hblank more) (hblank more') hsplit
  exact ⟨hdefinition, by simpa [← String.toList_inj] using hmore⟩

/-- Instances do not begin like other items. -/
theorem Instance.WellFormed.not_begins {inst : Instance} (h : inst.WellFormed) (more : String) :
    ¬Begins ["    wire ", "    logic ", "    assign "]
      (indentation ++ inst.definition ++ " " ++ more) := by
  have hwords : ∀ word ∈ ["    wire ", "    logic ", "    assign "],
      ∃ keyword ∈ ["wire", "logic", "assign"],
        Vlnv.isIdentifier keyword.toList = true ∧ word = indentation ++ keyword ++ " " := by
    decide
  rintro ⟨word, hword, behind, hbehind⟩
  obtain ⟨keyword, hkeyword, hidentifier, rfl⟩ := hwords word hword
  have heq : indentation ++ inst.definition ++ " " ++ more =
      indentation ++ keyword ++ " " ++ String.ofList behind := by
    rw [← String.toList_inj, ← hbehind]
    simp
  obtain ⟨rfl, -⟩ :=
    Instance.definition_inj h.definition ((Vlnv.isIdentifier_iff keyword).1 hidentifier) heq
  exact h.definition_notMem hkeyword

/-- The end of a list of connections does not begin like one. -/
theorem not_begins_closing (more : String) (rest : List String) :
    ∀ first ∈ ((indentation ++ ")" ++ more) :: rest).head?, ¬Begins ["        "] first := by
  rintro _ ⟨⟩
  simp [Begins, indentation]

theorem connections_append_inj {connections connections' : List Connection}
    (h : ∀ connection ∈ connections, connection.WellFormed)
    (h' : ∀ connection ∈ connections', connection.WellFormed) {more more' : String}
    {rest rest' : List String}
    (heq : commaLines (connections.map (·.line)) ++ (indentation ++ ")" ++ more) :: rest =
      commaLines (connections'.map (·.line)) ++ (indentation ++ ")" ++ more') :: rest') :
    connections = connections' ∧ more = more' ∧ rest = rest' := by
  have hempty : ¬Begins ["        "] "" := by decide
  obtain ⟨hconnections, hrest⟩ := legible_connection.commaLines_append_inj h h' hempty
    (not_begins_closing more rest) (not_begins_closing more' rest') heq
  obtain ⟨hmore, hrests⟩ := List.cons.inj hrest
  exact ⟨hconnections, by simpa [String.toList_inj] using hmore, hrests⟩

theorem Instance.lines_append_inj {inst inst' : Instance} (h : inst.WellFormed)
    (h' : inst'.WellFormed) {rest rest' : List String}
    (heq : inst.lines ++ rest = inst'.lines ++ rest') : inst = inst' ∧ rest = rest' := by
  -- what comes behind the parameters
  have hports (hdefinition : inst.definition = inst'.definition)
      (hparameters : inst.parameters = inst'.parameters) (hident : inst.ident = inst'.ident)
      (hlines : commaLines (inst.ports.map (·.line)) ++ (indentation ++ ")" ++ ";") :: rest =
        commaLines (inst'.ports.map (·.line)) ++ (indentation ++ ")" ++ ";") :: rest') :
      inst = inst' ∧ rest = rest' := by
    obtain ⟨hports, -, hrests⟩ := connections_append_inj h.ports h'.ports hlines
    cases inst
    cases inst'
    simp_all
  have hhash (ident more : String) (hident : SimpleIdentifier ident) : ident ++ more ≠ "#(" := by
    intro hsharp
    have hlist := congrArg String.toList hsharp
    rw [String.toList_append] at hlist
    exact hident.ne_cons_append (by decide) _ _ hlist
  cases hparameters : inst.parameters with
  | nil =>
    cases hparameters' : inst'.parameters with
    | nil =>
      simp only [lines, opening, hparameters, hparameters', List.append_assoc, List.cons_append,
        List.nil_append, List.cons.injEq] at heq
      obtain ⟨hdefinition, hident⟩ := definition_inj h.definition h'.definition heq.1
      refine hports hdefinition (hparameters.trans hparameters'.symm) ?_ heq.2
      simpa [String.toList_inj] using hident
    | cons parameter' parameters' =>
      simp only [lines, opening, hparameters, hparameters', List.append_assoc, List.cons_append,
        List.nil_append, List.cons.injEq] at heq
      exact absurd (definition_inj h.definition h'.definition heq.1).2 (hhash _ _ h.ident)
  | cons parameter parameters =>
    cases hparameters' : inst'.parameters with
    | nil =>
      simp only [lines, opening, hparameters, hparameters', List.append_assoc, List.cons_append,
        List.nil_append, List.cons.injEq] at heq
      exact absurd (definition_inj h.definition h'.definition heq.1).2.symm (hhash _ _ h'.ident)
    | cons parameter' parameters' =>
      simp only [lines, opening, hparameters, hparameters', List.append_assoc, List.cons_append,
        List.nil_append, List.cons.injEq] at heq
      obtain ⟨hdefinition, -⟩ := definition_inj h.definition h'.definition heq.1
      rw [← hparameters, ← hparameters'] at heq
      obtain ⟨hparameters, hident, hrest⟩ :=
        connections_append_inj h.parameters h'.parameters heq.2
      refine hports hdefinition hparameters ?_ hrest
      simpa [String.toList_inj] using hident

theorem legible_instance :
    Legible Instance.WellFormed [indentation] fun inst => inst.lines ++ [""] where
  exists_first := by
    intro inst _
    obtain ⟨more, rest, hlines⟩ := inst.exists_lines
    exact ⟨_, rest ++ [""], by rw [hlines]; rfl, indentation, by simp, by simp⟩
  inj := by
    intro inst inst' h h' rest rest' heq
    rw [List.append_assoc, List.append_assoc] at heq
    obtain ⟨hinst, hrest⟩ := Instance.lines_append_inj h h' heq
    exact ⟨hinst, List.append_cancel_left hrest⟩

end Verilog

end RegMap
