import Mathlib.Data.Nat.Digits.Lemmas
import RegMap.AccessVector

/-!
# Reading the access vector back

The access vector is written as one literal and as a concatenation of a literal for each register.
Both are built by themselves, one from its last register on and one by putting each register in
front of those before it.  Here both are read: the literal as a binary number, of which a register
is told by two bits, and the concatenation part by part.

* `AccessVector.ofDigitChars_digits`: the number has the code of register `i` in base four at
  digit `i`, and `AccessVector.groupOf_ofDigits` finds the access kind there.
* `AccessVector.decode_digits`: so the digits determine the vector, and with them each text that
  they can be read from (`AccessVector.bits_injective`, `AccessVector.text_injective`,
  `AccessVector.concatenation_injective`).
* `AccessVector.foldl_prepend` and `AccessVector.concatenated?_concatenation`: the parts of the
  concatenation are the codes of the registers, the last one first.
-/

namespace RegMap

/-! ## Codes -/

namespace Access

/-- The access kind of a code, by its upper and lower bit. -/
def ofBits : Bool → Bool → Access
  | false, false => readWrite
  | false, true => readOnly
  | true, false => writeOnly
  | true, true => writeOneToClear

theorem ofBits_code (access : Access) :
    ofBits (access.code.toNat.testBit 1) (access.code.toNat.testBit 0) = access := by
  cases access <;> decide

/-- The digits of a code, read behind other digits. -/
theorem ofDigitChars_codeDigits (access : Access) (value : Nat) :
    Nat.ofDigitChars 2 access.codeDigits value = 4 * value + access.code.toNat := by
  cases access <;> simp [codeDigits, code, Nat.ofDigitChars_cons] <;> omega

end Access

namespace AccessVector

/-! ## The number -/

/-- The codes of the registers as numbers. -/
def codes (vector : AccessVector) : List Nat :=
  vector.groups.map (·.code.toNat)

theorem digits_cons (access : Access) (rest : List Access) :
    digits ⟨access :: rest⟩ = digits ⟨rest⟩ ++ access.codeDigits := by
  simp [digits]

/-- Read as a binary number, the digits have the codes in base four, the first one lowest. -/
theorem ofDigitChars_digits (vector : AccessVector) :
    Nat.ofDigitChars 2 vector.digits 0 = Nat.ofDigits 4 vector.codes := by
  obtain ⟨groups⟩ := vector
  induction groups with
  | nil => rfl
  | cons access rest ih =>
    rw [digits_cons, Nat.ofDigitChars_append, ih, Access.ofDigitChars_codeDigits, codes, codes,
      List.map_cons, Nat.ofDigits_cons, Nat.add_comm]

theorem ofDigits_codes (vector : AccessVector) :
    Nat.ofDigits 4 vector.codes =
      (vector.groups.mapIdx fun i access => access.code.toNat * 4 ^ i).sum := by
  rw [Nat.ofDigits_eq_sum_mapIdx]
  congr 1
  apply List.ext_getElem?
  intro i
  rw [List.getElem?_mapIdx, List.getElem?_mapIdx, codes, List.getElem?_map, Option.map_map]
  rfl

/-- The access kind that bits `2i + 1` and `2i` of a number tell. -/
def groupOf (value i : Nat) : Access :=
  .ofBits (value.testBit (2 * i + 1)) (value.testBit (2 * i))

theorem groupOf_ofDigits {vector : AccessVector} {i : Nat} {access : Access}
    (h : vector.groups[i]? = some access) :
    groupOf (Nat.ofDigits 4 vector.codes) i = access := by
  obtain ⟨groups⟩ := vector
  dsimp only at h
  induction groups generalizing i with
  | nil => simp at h
  | cons head rest ih =>
    have hbits (j : Nat) : (Nat.ofDigits 4 (codes ⟨head :: rest⟩)).testBit j =
        if j < 2 then head.code.toNat.testBit j
        else (Nat.ofDigits 4 (codes ⟨rest⟩)).testBit (j - 2) := by
      rw [codes, List.map_cons, Nat.ofDigits_cons, Nat.add_comm]
      exact Nat.testBit_two_pow_mul_add _ head.code.isLt j
    cases i with
    | zero =>
      obtain rfl : head = access := by simpa using h
      rw [groupOf, hbits, hbits]
      exact head.ofBits_code
    | succ i =>
      rw [List.getElem?_cons_succ] at h
      rw [groupOf, hbits, hbits, if_neg (by omega), if_neg (by omega)]
      exact ih h

/-- The vector that digits stand for. -/
def decode (digits : List Char) : AccessVector :=
  ⟨(List.range (digits.length / 2)).map (groupOf (Nat.ofDigitChars 2 digits 0))⟩

theorem decode_digits (vector : AccessVector) : decode vector.digits = vector := by
  obtain ⟨groups⟩ := vector
  have hlength : (digits ⟨groups⟩).length / 2 = groups.length := by
    rw [length_digits, bitLength]
    exact Nat.mul_div_cancel_left _ (by decide)
  rw [decode, hlength, ofDigitChars_digits, mk.injEq]
  apply List.ext_getElem
  · simp
  · intro i _ hi
    rw [List.getElem_map, List.getElem_range]
    exact groupOf_ofDigits (List.getElem?_eq_getElem hi)

theorem digits_injective : Function.Injective digits :=
  Function.LeftInverse.injective decode_digits

theorem bits_injective : Function.Injective bits :=
  fun _ _ heq => digits_injective (String.ofList_injective heq)

/-! ## The literal -/

/-- The digits of a literal, behind its size and its base. -/
def literalDigits (text : String) : List Char :=
  (text.toList.dropWhile Char.isDigit).drop 2

/-- Without registers there are no digits to be read either. -/
theorem literalDigits_text (vector : AccessVector) : literalDigits vector.text = vector.digits := by
  unfold literalDigits text
  split
  · rename_i hempty
    obtain ⟨groups⟩ := vector
    obtain rfl : groups = [] := List.isEmpty_iff.1 hempty
    decide
  · have htext : (s!"{vector.bitLength}'b" ++ vector.bits).toList =
        Nat.toDigits 10 vector.bitLength ++ ("'b".toList ++ vector.digits) := by
      simp [bits, toString, Nat.toList_repr]
    have hsize : ∀ c ∈ Nat.toDigits 10 vector.bitLength, c.isDigit = true :=
      fun c hc => Nat.isDigit_of_mem_toDigits (by decide) (by decide) hc
    rw [htext, List.dropWhile_append_of_pos hsize]
    rfl

theorem text_injective : Function.Injective text := by
  intro vector other heq
  apply digits_injective
  rw [← literalDigits_text, heq, literalDigits_text]

/-! ## The concatenation -/

theorem literals_ne_empty {groups : List Access} (hne : groups ≠ []) :
    ",".intercalate (groups.map literal) ≠ "" := by
  obtain ⟨access, rest, rfl⟩ := List.exists_cons_of_ne_nil hne
  rw [List.map_cons, literal, String.intercalate_cons_append]
  simp

theorem prepend_literals (access : Access) (placed : List Access) :
    prepend (",".intercalate (placed.map literal)) access =
      ",".intercalate ((access :: placed).map literal) := by
  cases placed with
  | nil => simp [prepend]
  | cons next rest =>
    have hne := literals_ne_empty (List.cons_ne_nil next rest)
    rw [prepend, if_neg (by simpa using hne)]
    simp

/-- Putting the registers in front of each other, one by one, lists them from the last one on. -/
theorem foldl_prepend (groups placed : List Access) :
    groups.foldl prepend (",".intercalate (placed.map literal)) =
      ",".intercalate ((groups.reverse ++ placed).map literal) := by
  induction groups generalizing placed with
  | nil => rfl
  | cons access rest ih =>
    rw [List.foldl_cons, prepend_literals, ih, List.reverse_cons, List.append_assoc]
    rfl

/-- The digits of a literal of two bits. -/
def twoBits? (literal : List Char) : Option (List Char) :=
  if literal.take 3 = "2'b".toList ∧ literal.length = 5 then some (literal.drop 3) else none

/-- The digits of a concatenation, literal by literal from left to right. -/
def concatenated? (text : String) : Option (List (List Char)) :=
  let inner := (text.toList.drop 1).dropLast
  if text.toList = '\x7b' :: inner ++ ['\x7d'] then
    if inner = [] then some [] else (inner.splitOn ',').mapM twoBits?
  else
    none

theorem twoBits?_literal (access : Access) :
    twoBits? (literal access).toList = some access.codeDigits := by
  cases access <;> decide

theorem comma_notMem_literal (access : Access) : ',' ∉ (literal access).toList := by
  cases access <;> decide

theorem mapM_twoBits?_literal (groups : List Access) :
    (groups.map fun access => (literal access).toList).mapM twoBits? =
      some (groups.map Access.codeDigits) := by
  induction groups with
  | nil => rfl
  | cons access rest ih =>
    rw [List.map_cons, List.mapM_cons, twoBits?_literal, ih]
    rfl

/-- The literals of some registers are the parts between the commas. -/
theorem splitOn_literals {groups : List Access} (hne : groups ≠ []) :
    (",".intercalate (groups.map literal)).toList.splitOn ',' =
      groups.map fun access => (literal access).toList := by
  rw [String.toList_intercalate, List.map_map]
  apply List.splitOn_intercalate
  · exact List.forall_mem_map.2 fun access _ => comma_notMem_literal access
  · simpa using hne

/-- The parts of the concatenation are the codes of the registers, the last one first. -/
theorem concatenated?_concatenation (vector : AccessVector) :
    concatenated? vector.concatenation = some (vector.groups.reverse.map Access.codeDigits) := by
  let inner := (",".intercalate (vector.groups.reverse.map literal)).toList
  have htext : vector.concatenation.toList = '\x7b' :: inner ++ ['\x7d'] := by
    have hfold := foldl_prepend vector.groups []
    rw [List.map_nil, String.intercalate_nil, List.append_nil] at hfold
    simp [concatenation, hfold, inner]
  have hinner : (vector.concatenation.toList.drop 1).dropLast = inner := by
    rw [htext]
    simp
  rw [concatenated?, hinner, if_pos htext]
  by_cases hnil : vector.groups = []
  · simp [inner, hnil]
  · have hsplit := splitOn_literals (List.reverse_ne_nil_iff.2 hnil)
    have hne : inner ≠ [] :=
      mt String.toList_eq_nil_iff.1 (literals_ne_empty (List.reverse_ne_nil_iff.2 hnil))
    rw [if_neg hne, hsplit, mapM_twoBits?_literal]

theorem concatenation_injective : Function.Injective concatenation := by
  intro vector other heq
  apply digits_injective
  have hparts := concatenated?_concatenation vector
  rw [heq, concatenated?_concatenation, Option.some.injEq] at hparts
  rw [digits, digits, List.flatMap_def, List.flatMap_def, hparts]

/-! ## Both texts -/

/-- What can be read from the texts of a vector.  Its bits are a binary number with the code of
register `i` at bits `2i + 1` and `2i`; the literal and the concatenation give the same digits, and
no other vector has one of these texts. -/
structure Readable (vector : AccessVector) : Prop where
  length_bits : vector.bits.length = 2 * vector.groups.length
  binary : ∀ digit ∈ vector.bits.toList, digit = '0' ∨ digit = '1'
  value_bits : Nat.ofDigitChars 2 vector.bits.toList 0 =
    (vector.groups.mapIdx fun i access => access.code.toNat * 4 ^ i).sum
  text_eq : 1 ≤ vector.groups.length →
    vector.text = s!"{2 * vector.groups.length}'b" ++ vector.bits
  concatenation_eq : ∃ parts, concatenated? vector.concatenation = some parts ∧
    (∀ part ∈ parts, part.length = 2) ∧ parts.flatten = vector.bits.toList
  groupOf_eq : ∀ i access, vector.groups[i]? = some access →
    groupOf (Nat.ofDigitChars 2 vector.bits.toList 0) i = access
  unique : ∀ other : AccessVector, other ≠ vector →
    other.bits ≠ vector.bits ∧ other.text ≠ vector.text ∧
      other.concatenation ≠ vector.concatenation

/-- Every vector can be read back. -/
theorem readable (vector : AccessVector) : vector.Readable where
  length_bits := by
    rw [bits, String.length_ofList, length_digits, bitLength]
  binary := by
    rw [bits, String.toList_ofList]
    exact fun digit hdigit => binary_of_mem_digits hdigit
  value_bits := by
    rw [bits, String.toList_ofList, ofDigitChars_digits, ofDigits_codes]
  text_eq := by
    intro hpos
    have hempty : vector.isEmpty = false := by
      rw [isEmpty, List.isEmpty_eq_false_iff]
      exact List.ne_nil_of_length_pos hpos
    rw [text, hempty, bitLength]
    rfl
  concatenation_eq := by
    refine ⟨_, concatenated?_concatenation vector, ?_, ?_⟩
    · exact List.forall_mem_map.2 fun _ _ => rfl
    · rw [bits, String.toList_ofList, digits, List.flatMap_def]
  groupOf_eq := by
    intro i access h
    rw [bits, String.toList_ofList, ofDigitChars_digits]
    exact groupOf_ofDigits h
  unique := by
    intro other hne
    exact ⟨bits_injective.ne hne, text_injective.ne hne, concatenation_injective.ne hne⟩

/-- The first register is written last. -/
example : text ⟨[.readOnly, .readWrite]⟩ = "4'b0001" ∧
    concatenation ⟨[.readOnly, .readWrite]⟩ = "\x7b2'b00,2'b01\x7d" := by
  decide

end AccessVector

end RegMap
