/-!
Words of a fixed number of bytes: their bytes in either order, truncation and sign extension.
-/

namespace RoutineEmulator

/-- The order of the bytes of a word in memory. -/
inductive ByteOrder where
  /-- The lowest byte comes first. -/
  | little
  /-- The highest byte comes first. -/
  | big
  deriving Repr, DecidableEq, Inhabited

/-- The number with these bytes, lowest byte first. -/
def natOfBytes : List UInt8 → Nat
  | [] => 0
  | byte :: rest => byte.toNat + 256 * natOfBytes rest

/-- The lowest `size` bytes of a number, lowest byte first. -/
def bytesOfNat : Nat → Nat → List UInt8
  | 0, _ => []
  | size + 1, n => UInt8.ofNat n :: bytesOfNat size (n / 256)

/-- Turns bytes given lowest first into the order of memory, and back. -/
def ByteOrder.arrange : ByteOrder → List UInt8 → List UInt8
  | little, bytes => bytes
  | big, bytes => bytes.reverse

/-- The widths in bytes that a word may have. -/
def isWordWidth (size : Nat) : Bool :=
  size == 1 || size == 2 || size == 4 || size == 8

/-- The low `size` bytes of a word. -/
def lowBytes (value : UInt64) (size : Nat) : UInt64 :=
  UInt64.ofNat (value.toNat % 1 <<< (8 * size))

/-- The low `size` bytes of a word, read as a signed number. Other widths than one, two and four
bytes leave the word as it is. -/
def signExtend (value : UInt64) (size : Nat) : Int64 :=
  match size with
  | 1 => value.toUInt8.toInt8.toInt64
  | 2 => value.toUInt16.toInt16.toInt64
  | 4 => value.toUInt32.toInt32.toInt64
  | _ => value.toInt64

end RoutineEmulator
