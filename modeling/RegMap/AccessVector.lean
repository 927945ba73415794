import RegMap.Access

/-!
# The access vector

The register engine reads the access codes of all registers from one vector.
Group `i`, the bits `2i + 1` and `2i`, is the code of register `i`, so the first
register is the least significant group and written last.
-/

namespace RegMap

/-- The access kinds of the registers, by their index. -/
structure AccessVector where
  groups : List Access

namespace AccessVector

/-- Whether there are no registers. -/
def isEmpty (vector : AccessVector) : Bool :=
  vector.groups.isEmpty

/-- The width of the vector in bits. -/
def bitLength (vector : AccessVector) : Nat :=
  2 * vector.groups.length

/-- The access kind of register `i`. -/
def group? (vector : AccessVector) (i : Nat) : Option Access :=
  vector.groups[i]?

/-- The binary digits, most significant first. -/
def digits (vector : AccessVector) : List Char :=
  vector.groups.reverse.flatMap Access.codeDigits

theorem length_digits (vector : AccessVector) : vector.digits.length = vector.bitLength := by
  obtain ⟨groups⟩ := vector
  induction groups with
  | nil => rfl
  | cons access rest ih =>
    simp only [digits, bitLength, Access.codeDigits, List.reverse_cons, List.flatMap_append,
      List.flatMap_cons, List.flatMap_nil, List.length_append, List.length_map, List.length_cons,
      List.length_nil] at ih ⊢
    omega

theorem binary_of_mem_digits {vector : AccessVector} {digit : Char}
    (h : digit ∈ vector.digits) : digit = '0' ∨ digit = '1' := by
  simp only [digits, List.mem_flatMap, Access.codeDigits, List.mem_map] at h
  obtain ⟨_, -, set, -, rfl⟩ := h
  cases set <;> simp

/-- The digits as a text. -/
def bits (vector : AccessVector) : String :=
  String.ofList vector.digits

/-- The code of one register as a sized literal. -/
def literal (access : Access) : String :=
  "2'b" ++ String.ofList access.codeDigits

/-- The literals of some registers with that of the next one in front of them. -/
def prepend (literals : String) (access : Access) : String :=
  if literals.isEmpty then literal access else literal access ++ "," ++ literals

/-- The vector as a concatenation of a sized literal for each register. -/
def concatenation (vector : AccessVector) : String :=
  "\x7b" ++ vector.groups.foldl prepend "" ++ "\x7d"

/-- The vector as one sized literal. Without registers it is the literal `'0`. -/
def text (vector : AccessVector) : String :=
  if vector.isEmpty then "'0" else s!"{vector.bitLength}'b" ++ vector.bits

end AccessVector

end RegMap
