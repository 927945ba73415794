/-!
# Register addresses

Registers are 32-bit words on a byte-addressed bus, so consecutive registers
lie four bytes apart.
-/

namespace RegMap

/-- Width of every register word, in bits. -/
def registerWidth : Nat := 32

/-- Bytes from one register to the next. -/
def registerStride : UInt32 := 4

namespace Address

/-- The address of a register by its place in the map. Addresses are 32-bit
words, and so is the product. -/
def ofIndex (index : Nat) : UInt32 :=
  UInt32.ofNat index * registerStride

/-- The index of the word at an address in the register engine's arrays. -/
def word (address : UInt32) : Nat :=
  (address / registerStride).toNat

/-- The address in lower-case hexadecimal, with at least four digits. -/
def text (address : UInt32) : String :=
  let digits := Nat.toDigits 16 address.toNat
  "0x" ++ String.ofList (List.replicate (4 - digits.length) '0' ++ digits)

end Address

end RegMap
