import RegMap.Listing
import RegMap.Proofs.History
import RegMap.Proofs.Legality
import RegMap.Proofs.SourceLines
import RegMap.Text.Numeral

/-!
# Reading a listing back

A listing names a register on the line of its first occupant only, and the names of fields may have
tabs, colons and brackets in them.  Still a listing tells the registers, because every line is read
from its ends: the register up to the first tab, the numbers behind the last two colons.

* `Text.cut?` and `Text.cutLast?` cut a text at the first and at the last separator.
* `Listing.readLine?` reads one line, `Listing.read?` a listing.
* `Listing.readLine?_opening` and `Listing.readLine?_indented`: what a line adds to what was read
  before it.  `Listing.foldlM_readLine?_lines` and `Listing.foldlM_readLine?_flatMap` follow the
  lines of a register and those of all registers.
* `RegisterMap.readsBack_of_isPacked`: the listing of a packed map is read back, and has a line for
  each replica.
-/

namespace RegMap

/-! ## Cuts at a separator -/

namespace Text

/-- What stands before the first separator of a text, and what behind it. -/
def cut? (separator : Char) : List Char → Option (List Char × List Char)
  | [] => none
  | c :: rest =>
    if c = separator then
      some ([], rest)
    else
      (cut? separator rest).map fun (before, behind) => (c :: before, behind)

/-- What stands before the last separator of a text, and what behind it. -/
def cutLast? (separator : Char) (text : List Char) : Option (List Char × List Char) :=
  (cut? separator text.reverse).map fun (behind, before) => (before.reverse, behind.reverse)

theorem cut?_append {separator : Char} {left : List Char} (h : separator ∉ left)
    (right : List Char) : cut? separator (left ++ separator :: right) = some (left, right) := by
  induction left with
  | nil => simp [cut?]
  | cons c rest ih =>
    rw [List.mem_cons, not_or] at h
    rw [List.cons_append, cut?, if_neg (Ne.symm h.1), ih h.2]
    rfl

theorem cutLast?_append {separator : Char} {right : List Char} (h : separator ∉ right)
    (left : List Char) : cutLast? separator (left ++ separator :: right) = some (left, right) := by
  have hreverse : (left ++ separator :: right).reverse =
      right.reverse ++ separator :: left.reverse := by
    simp
  unfold cutLast?
  rw [hreverse, cut?_append (by simpa using h)]
  simp

end Text

/-! ## The reader -/

namespace Listing

/-- An occupant as a line tells it. -/
structure Entry where
  name : String
  offset : Nat
  width : Nat
deriving DecidableEq

/-- A register as its lines tell it. -/
structure Paragraph where
  access : Access
  address : Nat
  entries : List Entry
deriving DecidableEq

/-- The name before the last two colons, and the numbers behind them. -/
def entryOf? (text : List Char) : Option Entry := do
  let (front, width) ← Text.cutLast? ':' text
  let (name, offset) ← Text.cutLast? ':' front
  let offset ← Text.numeral? 10 offset
  let width ← Text.numeral? 10 width
  return ⟨String.ofList name, offset, width⟩

/-- The number that is written in hexadecimal behind `0x`. -/
def address? : List Char → Option Nat
  | '0' :: 'x' :: digits => Text.numeral? 16 digits
  | _ => none

/-- An access keyword and an address, with a colon behind each. -/
def heading? (text : List Char) : Option (Access × Nat) := do
  let (keyword, rest) ← Text.cut? ':' text
  let (address, behind) ← Text.cut? ':' rest
  let access ← Access.ofKeyword? (String.ofList keyword)
  let address ← address? address
  if behind = [] then some (access, address) else none

/-- The paragraphs, the last one first, once a line has opened the next register: its heading stands
before the first tab, and its first occupant behind. -/
def openNext? (read : List Paragraph) (line : List Char) : Option (List Paragraph) := do
  let (heading, text) ← Text.cut? '\t' line
  let (access, address) ← heading? heading
  let entry ← entryOf? text
  return ⟨access, address, [entry]⟩ :: read

/-- The paragraphs, the last one first, once a line has gone on with the last one: its occupant
stands behind two tabs. -/
def goOn? : List Paragraph → List Char → Option (List Paragraph)
  | last :: before, '\t' :: '\t' :: text => do
    let entry ← entryOf? text
    return { last with entries := last.entries ++ [entry] } :: before
  | _, _ => none

/-- Reads a line, which goes on with the last register if it starts with a tab. -/
def readLine? (read : List Paragraph) (line : String) : Option (List Paragraph) :=
  if line.toList.head? = some '\t' then goOn? read line.toList else openNext? read line.toList

/-- The registers that the lines of a listing tell.  Every line is ended by a line feed, so that
nothing stands behind the last one. -/
def read? (text : String) : Option (List Paragraph) :=
  ((Text.lines text).dropLast.foldlM readLine? []).map List.reverse

/-- A name may begin with tabs, and may have colons in it. -/
example : read? "ro:0x12345:\t\ta:b:0:4\n\t\t\tc[1]:4:12\n" =
    some [⟨.readOnly, 0x12345, [⟨"\ta:b", 0, 4⟩, ⟨"\tc[1]", 4, 12⟩]⟩] := by
  rfl

/-! ## Parts of a line -/

/-- What is to be read of an occupant. -/
def Entry.ofOccupant (occupant : Occupant) : Entry :=
  ⟨occupant.replica.name, occupant.offset.toNat, occupant.width.toNat⟩

/-- What is to be read of a register. -/
def Paragraph.ofRegister (register : Register) : Paragraph :=
  ⟨register.access, register.address.toNat, register.occupants.map Entry.ofOccupant⟩

theorem toList_entry (occupant : Occupant) :
    (entry occupant).toList =
      (occupant.replica.name.toList ++ ':' :: Nat.toDigits 10 occupant.offset.toNat) ++
        ':' :: Nat.toDigits 10 occupant.width.toNat := by
  simp [entry, toString, Nat.toList_repr]

/-- Whatever the name is, it is told from the numbers. -/
theorem entryOf?_entry (occupant : Occupant) :
    entryOf? (entry occupant).toList = some (.ofOccupant occupant) := by
  have hcolon (n : Nat) : ':' ∉ Nat.toDigits 10 n :=
    Text.notMem_toDigits (by omega) (by omega) (by decide) n
  have hnumber (n : Nat) : Text.numeral? 10 (Nat.toDigits 10 n) = some n :=
    Text.numeral?_toDigits (by omega) (by omega) 0 n
  unfold entryOf?
  rw [toList_entry, Text.cutLast?_append (hcolon _)]
  simp [Text.cutLast?_append (hcolon _), hnumber, Entry.ofOccupant]

theorem toList_text (address : UInt32) :
    ∃ zeros, (Address.text address).toList =
      '0' :: 'x' :: (List.replicate zeros '0' ++ Nat.toDigits 16 address.toNat) :=
  ⟨4 - (Nat.toDigits 16 address.toNat).length, by simp [Address.text]⟩

theorem address?_text (address : UInt32) :
    address? (Address.text address).toList = some address.toNat := by
  obtain ⟨zeros, htext⟩ := toList_text address
  rw [htext]
  exact Text.numeral?_toDigits (by omega) (by omega) zeros address.toNat

theorem notMem_text {c : Char} (hdigit : Text.digitValue? c = none) (hx : c ≠ 'x')
    (address : UInt32) : c ∉ (Address.text address).toList := by
  obtain ⟨zeros, htext⟩ := toList_text address
  have hzero : c ≠ '0' := by
    intro h
    subst h
    exact absurd hdigit (by decide)
  have hdigits : c ∉ Nat.toDigits 16 address.toNat :=
    Text.notMem_toDigits (by omega) (by omega) hdigit address.toNat
  rw [htext]
  simp [hzero, hx, hdigits]

/-- The characters that keep the parts of a listing apart. -/
def Blank (c : Char) : Prop :=
  c = '\t' ∨ c = '\n'

theorem Blank.digitValue?_eq {c : Char} (h : Blank c) : Text.digitValue? c = none := by
  cases h with
  | inl h => subst h; decide
  | inr h => subst h; decide

theorem Blank.ne {c d : Char} (h : Blank c) (hd : ¬Blank d) : c ≠ d := by
  intro heq
  subst heq
  exact hd h

theorem toList_registerText (register : Register) :
    register.text.toList = register.access.keyword.toList ++
      ':' :: ((Address.text register.address).toList ++ [':']) := by
  simp [Register.text, toString]

theorem Blank.notMem_registerText {c : Char} (h : Blank c) (register : Register) :
    c ∉ register.text.toList := by
  have hkeyword : c ∉ register.access.keyword.toList := by
    cases h with
    | inl h => subst h; cases register.access <;> decide
    | inr h => subst h; cases register.access <;> decide
  have hcolon : c ≠ ':' := h.ne (by unfold Blank; decide)
  have haddress : c ∉ (Address.text register.address).toList :=
    notMem_text h.digitValue?_eq (h.ne (by unfold Blank; decide)) register.address
  rw [toList_registerText]
  simp [hkeyword, hcolon, haddress]

theorem heading?_registerText (register : Register) :
    heading? register.text.toList = some (register.access, register.address.toNat) := by
  have hkeyword : ':' ∉ register.access.keyword.toList := by
    cases register.access <;> decide
  have haddress : ':' ∉ (Address.text register.address).toList :=
    notMem_text (by decide) (by decide) register.address
  unfold heading?
  rw [toList_registerText, Text.cut?_append hkeyword]
  simp [Text.cut?_append haddress, Access.ofKeyword?_keyword, address?_text]

/-! ## Lines -/

/-- The first occupant of a register stands behind the register. -/
theorem readLine?_opening (read : List Paragraph) (register : Register) (occupant : Occupant) :
    readLine? read s!"{register.text}\t{entry occupant}" =
      some (⟨register.access, register.address.toNat, [.ofOccupant occupant]⟩ :: read) := by
  have hline : s!"{register.text}\t{entry occupant}".toList =
      register.text.toList ++ '\t' :: (entry occupant).toList := by
    simp [toString]
  have htab : '\t' ∉ register.text.toList := Blank.notMem_registerText (.inl rfl) register
  have hhead : s!"{register.text}\t{entry occupant}".toList.head? ≠ some '\t' := by
    rw [hline, toList_registerText]
    cases register.access <;> simp [Access.keyword]
  unfold readLine? openNext?
  rw [if_neg hhead, hline, Text.cut?_append htab]
  simp [heading?_registerText, entryOf?_entry]

/-- Every other occupant goes on with the register before it. -/
theorem readLine?_indented (last : Paragraph) (before : List Paragraph) (occupant : Occupant) :
    readLine? (last :: before) s!"\t\t{entry occupant}" =
      some ({ last with entries := last.entries ++ [.ofOccupant occupant] } :: before) := by
  have hline : s!"\t\t{entry occupant}".toList = '\t' :: '\t' :: (entry occupant).toList := by
    simp [toString]
  have hhead : s!"\t\t{entry occupant}".toList.head? = some '\t' := by
    rw [hline, List.head?_cons]
  unfold readLine?
  rw [if_pos hhead, hline]
  show (entryOf? (entry occupant).toList >>= _) = _
  rw [entryOf?_entry]
  rfl

theorem foldlM_readLine?_indented (last : Paragraph) (before : List Paragraph)
    (occupants : List Occupant) :
    (occupants.map fun occupant => s!"\t\t{entry occupant}").foldlM readLine? (last :: before) =
      some ({ last with entries := last.entries ++ occupants.map .ofOccupant } :: before) := by
  induction occupants generalizing last with
  | nil => simp
  | cons occupant rest ih =>
    rw [List.map_cons, List.foldlM_cons, readLine?_indented]
    show List.foldlM readLine? _ _ = _
    rw [ih]
    simp

/-- The lines of a register add just this register to what was read before. -/
theorem foldlM_readLine?_lines {register : Register} (h : register.occupants ≠ [])
    (read : List Paragraph) :
    (lines register).foldlM readLine? read = some (.ofRegister register :: read) := by
  unfold lines Paragraph.ofRegister
  cases hoccupants : register.occupants with
  | nil => exact absurd hoccupants h
  | cons first rest =>
    show List.foldlM readLine? read (_ :: _) = _
    rw [List.foldlM_cons, readLine?_opening]
    exact foldlM_readLine?_indented _ read rest

theorem foldlM_readLine?_flatMap {registers : List Register}
    (h : ∀ register ∈ registers, register.occupants ≠ []) (read : List Paragraph) :
    (registers.flatMap lines).foldlM readLine? read =
      some ((registers.map .ofRegister).reverse ++ read) := by
  induction registers generalizing read with
  | nil => rfl
  | cons register rest ih =>
    rw [List.forall_mem_cons] at h
    rw [List.flatMap_cons, List.foldlM_append, foldlM_readLine?_lines h.1]
    show List.foldlM readLine? _ _ = _
    rw [ih h.2]
    simp

theorem length_lines (register : Register) :
    (lines register).length = register.occupants.length := by
  unfold lines
  cases register.occupants with
  | nil => rfl
  | cons first rest => simp

/-- No line goes on on the next one. -/
theorem line_feed_notMem_lines {register : Register}
    (h : ∀ occupant ∈ register.occupants, '\n' ∉ occupant.replica.field.ident.toList) :
    ∀ line ∈ lines register, '\n' ∉ line.toList := by
  have hdigits (n : Nat) : '\n' ∉ Nat.toDigits 10 n :=
    Text.notMem_toDigits (by omega) (by omega) (by decide) n
  have hname (occupant : Occupant) (hoccupant : occupant ∈ register.occupants) :
      '\n' ∉ occupant.replica.name.toList := by
    have hident := h occupant hoccupant
    unfold Replica.name Field.replicaName
    split
    · simp [toString, Nat.toList_repr, hident, hdigits]
    · exact hident
  have hentry (occupant : Occupant) (hoccupant : occupant ∈ register.occupants) :
      '\n' ∉ (entry occupant).toList := by
    rw [toList_entry]
    simp [hname occupant hoccupant, hdigits]
  have htext : '\n' ∉ register.text.toList := Blank.notMem_registerText (.inr rfl) register
  unfold lines
  cases hoccupants : register.occupants with
  | nil => simp
  | cons first rest =>
    rw [hoccupants, List.forall_mem_cons] at hentry
    show ∀ line ∈ _ :: rest.map _, _
    rw [List.forall_mem_cons, List.forall_mem_map]
    constructor
    · simp [toString, htext, hentry.1]
    · intro occupant hoccupant
      simp [toString, hentry.2 occupant hoccupant]

/-- A listing as lines. -/
theorem render_eq_unlines (map : RegisterMap) :
    render map = Text.unlines (map.registers.flatMap lines) := rfl

end Listing

/-! ## Packed maps -/

theorem length_occupancy (registers : List Register) :
    (occupancy registers).length = (registers.map (·.occupants.length)).sum := by
  induction registers using List.reverseRecOn with
  | nil => rfl
  | append_singleton registers register ih => simp [ih]

namespace Layout

variable {fields : List Field}

/-- Every occupant is a replica of a declared field. -/
theorem field_mem_of_mem_occupants {register : Register}
    (hregister : register ∈ (ofFields fields).registers.toList) {occupant : Occupant}
    (hoccupant : occupant ∈ register.occupants) : occupant.replica.field ∈ fields := by
  obtain ⟨index, hindex⟩ := List.mem_iff_getElem?.1 hregister
  have hentry := mem_sequence_of_mem_occupancy fields (mem_occupancy.2 ⟨_, hindex, hoccupant⟩)
  exact List.mem_of_getElem? (Declaration.mem_ofFields.1 (mem_visited.1 (mem_sequence.1 hentry).1))

/-- The occupants are as many as the replicas. -/
theorem sum_length_occupants (fields : List Field) :
    ((ofFields fields).registers.toList.map (·.occupants.length)).sum =
      (fields.map (·.count.toNat)).sum := by
  rw [← length_occupancy, ← length_sequence, ← replicas_occupancy, List.length_map]

end Layout

namespace RegisterMap

/-- The listing of a map can be read back: it has a line for each replica, and the lines tell the
registers in order, each with its access kind, its address and its occupants. -/
structure ReadsBack (map : RegisterMap) : Prop where
  exists_lines : ∃ lines, Text.lines (Listing.render map) = lines ++ [""] ∧
    lines.length = map.replicaCount
  read?_eq : Listing.read? (Listing.render map) =
    some (map.registers.map Listing.Paragraph.ofRegister)

variable {map : RegisterMap}

theorem Packed.readsBack (h : map.Packed)
    (hnames : ∀ field ∈ map.fields, '\n' ∉ field.ident.toList) : map.ReadsBack := by
  have hlegal : ∀ register ∈ map.registers, register.Legal := by
    intro register hregister
    rw [h.registers_eq] at hregister
    exact Layout.legal_of_mem_registers h.packable hregister
  have hfields : ∀ register ∈ map.registers, ∀ occupant ∈ register.occupants,
      '\n' ∉ occupant.replica.field.ident.toList := by
    intro register hregister occupant hoccupant
    rw [h.registers_eq] at hregister
    exact hnames _ (Layout.field_mem_of_mem_occupants hregister hoccupant)
  have hlines : Text.lines (Listing.render map) = map.registers.flatMap Listing.lines ++ [""] := by
    rw [Listing.render_eq_unlines]
    apply Text.lines_unlines
    intro line hline
    obtain ⟨register, hregister, hmem⟩ := List.mem_flatMap.1 hline
    exact Listing.line_feed_notMem_lines (hfields register hregister) line hmem
  constructor
  · refine ⟨_, hlines, ?_⟩
    have hlength : (map.registers.flatMap Listing.lines).length =
        (map.registers.map (·.occupants.length)).sum := by
      simp only [List.length_flatMap, Listing.length_lines]
    rw [hlength, h.registers_eq, Layout.sum_length_occupants]
    rfl
  · unfold Listing.read?
    rw [hlines, List.dropLast_concat, Listing.foldlM_readLine?_flatMap
      fun register hregister => (hlegal register hregister).occupants_ne_nil]
    simp

/-- Whatever was done to a map before, once it is packed its listing can be read back, as long as
no name goes on on another line. -/
theorem readsBack_of_isPacked (hmap : map.Reachable) (hpacked : map.isPacked = true)
    (hnames : ∀ field ∈ map.fields, '\n' ∉ field.ident.toList) : map.ReadsBack :=
  (hmap.consistent.packed hpacked).readsBack hnames

/-- Names that look like the listing around them: one starts with a tab, one ends like an entry, one
is that of another replica, and one is empty. -/
theorem readsBack_of_isPacked_confusing :
    let map := (new ⟨"acme", "csr", "timer", none⟩ none).changed
      [.addAll [⟨"\tlevel:0:4", 4, .readOnly, 1⟩, ⟨"lane", 12, .readOnly, 3⟩,
        ⟨"lane[1]", 8, .readOnly, 1⟩, ⟨"", 32, .writeOneToClear, 2⟩], .pack .plain]
    map.Reachable ∧ map.isPacked = true ∧
      (∀ field ∈ map.fields, '\n' ∉ field.ident.toList) ∧ map.ReadsBack := by
  intro map
  have hmap : map.Reachable := ⟨_, _, _, rfl⟩
  have hnames : ∀ field ∈ map.fields, '\n' ∉ field.ident.toList := by decide
  exact ⟨hmap, rfl, hnames, readsBack_of_isPacked hmap rfl hnames⟩

end RegisterMap

end RegMap
