import RoutineEmulator.Fault
import RoutineEmulator.Memory.Words
import Std.Data.ExtTreeMap
/-!
Paged memory.

Memory is mapped in pages of 4096 bytes, each with its access flags. An access is checked as a whole
before it touches a byte, so a read or write that faults leaves the memory as it was.
`Memory.byteAt?` and `Memory.accessAt?` are the two views through which every operation is
described.
-/

namespace RoutineEmulator

/-- What a page may be used for. -/
structure Access where
  read : Bool := false
  write : Bool := false
  execute : Bool := false
  deriving Repr, DecidableEq, Inhabited

namespace Access

def readOnly : Access := { read := true }
def writeOnly : Access := { write := true }
def readWrite : Access := { read := true, write := true }
def all : Access := { read := true, write := true, execute := true }

/-- Whether every use in `wanted` is allowed. -/
def includes (a wanted : Access) : Bool :=
  (a.read || !wanted.read) && (a.write || !wanted.write) && (a.execute || !wanted.execute)

end Access

/-- The number of bytes of a page. -/
def pageSize : Nat := 4096

/-- One page: its bytes and what they may be used for. -/
structure Page where
  access : Access
  bytes : Vector UInt8 pageSize
  deriving DecidableEq

/-- The bytes of a page that was never written. -/
def zeroBytes : Vector UInt8 pageSize :=
  Vector.replicate pageSize 0

/-- The place of an address in its page. -/
def pageOffset (address : Nat) : Fin pageSize :=
  ⟨address % pageSize, Nat.mod_lt _ (by decide)⟩

/-- The number of pages that a range with at least one byte touches. -/
def pageSpan (address size : Nat) : Nat :=
  (address + size - 1) / pageSize - address / pageSize + 1

/-- A memory: its pages by page number, the byte order of its words, and the width of its addresses
in bits. -/
structure Memory where
  pages : Std.ExtTreeMap Nat Page := ∅
  byteOrder : ByteOrder := .little
  spaceBits : Nat := 64
  spaceBits_ge : 8 ≤ spaceBits := by decide
  spaceBits_le : spaceBits ≤ 64 := by decide

namespace Memory

/-- An empty memory. Address widths below 8 and above 64 bits are taken to the nearest of these. -/
def new (byteOrder : ByteOrder) (spaceBits : Nat) : Memory where
  byteOrder := byteOrder
  spaceBits := max 8 (min spaceBits 64)
  spaceBits_ge := by omega
  spaceBits_le := by omega

/-- The number of addresses. -/
def spaceSize (m : Memory) : Nat :=
  1 <<< m.spaceBits

/-- The highest address. -/
def maxAddress (m : Memory) : Nat :=
  m.spaceSize - 1

/-- The number of mapped pages. -/
def pageCount (m : Memory) : Nat :=
  m.pages.size

/-- The page that holds an address. -/
def pageOf? (m : Memory) (address : Nat) : Option Page :=
  m.pages[address / pageSize]?

/-- The access flags of the page that holds an address. -/
def accessAt? (m : Memory) (address : Nat) : Option Access :=
  (m.pageOf? address).map (·.access)

/-- The byte at an address, where it is mapped. -/
def byteAt? (m : Memory) (address : Nat) : Option UInt8 :=
  (m.pageOf? address).map (·.bytes[pageOffset address])

def isMapped (m : Memory) (address : Nat) : Bool :=
  (m.pageOf? address).isSome

/-- Whether two memories have the same pages, byte order and address width. -/
def same (m n : Memory) : Bool :=
  m.pages == n.pages && m.byteOrder == n.byteOrder && m.spaceBits == n.spaceBits

/-! ## Checking a range -/

/-- Whether `count` pages from `page` on are mapped with flags that `allowed` accepts. -/
def pagesAllow (m : Memory) (allowed : Access → Bool) : Nat → Nat → Bool
  | 0, _ => true
  | count + 1, page =>
    match m.pages[page]? with
    | some p => allowed p.access && m.pagesAllow allowed count (page + 1)
    | none => false

/-- Whether the range lies in the address space, and in pages with flags that `allowed` accepts. An
empty range always does. -/
def accessible (m : Memory) (allowed : Access → Bool) (address : UInt64) (size : Nat) : Bool :=
  size == 0 ||
    (decide (address.toNat + size ≤ m.spaceSize) &&
      m.pagesAllow allowed (pageSpan address.toNat size) (address.toNat / pageSize))

/-- Faults unless the range is accessible. -/
def check (m : Memory) (allowed : Access → Bool) (address : UInt64) (size : Nat) :
    Except EmulationError Unit :=
  if m.accessible allowed address size then .ok () else .error (.memoryAccessFault address size)

/-- Faults unless all uses in `access` are allowed over the range. -/
def checkRange (m : Memory) (address : UInt64) (size : Nat) (access : Access) :
    Except EmulationError Unit :=
  m.check (·.includes access) address size

/-! ## Mapping pages -/

/-- The unmapped pages among `count` pages from `page` on. -/
def gaps (m : Memory) (count page : Nat) : List Nat :=
  (List.range' page count).filter fun p => !m.pages.contains p

/-- Maps fresh pages of zeros. -/
def mapPages (m : Memory) (access : Access) (numbers : List Nat) : Memory :=
  { m with pages := numbers.foldl (fun pages p => pages.insert p ⟨access, zeroBytes⟩) m.pages }

/-- Maps the pages of a range that are not mapped yet, and tells how many they were. Mapped pages
keep their bytes and flags. -/
def allocate (m : Memory) (address : UInt64) (size : Nat) (access : Access) :
    Except EmulationError (Memory × Nat) :=
  if size = 0 then .ok (m, 0)
  else if address.toNat + size ≤ m.spaceSize then
    let gaps := m.gaps (pageSpan address.toNat size) (address.toNat / pageSize)
    .ok (m.mapPages access gaps, gaps.length)
  else .error (.memoryAccessFault address size)

/-! ## Bytes -/

/-- Replaces the byte at an address, where it is mapped. -/
def setByte (m : Memory) (address : Nat) (byte : UInt8) : Memory :=
  { m with
    pages := m.pages.modify (address / pageSize) fun p =>
      { p with bytes := p.bytes.set (pageOffset address) byte (pageOffset address).isLt } }

/-- Replaces the bytes from an address on. -/
def setBytes (m : Memory) (address : Nat) : List UInt8 → Memory
  | [] => m
  | byte :: rest => (m.setByte address byte).setBytes (address + 1) rest

/-- The bytes from an address on; unmapped ones count as zero. -/
def bytesFrom (m : Memory) (address size : Nat) : List UInt8 :=
  (List.range' address size).map fun a => (m.byteAt? a).getD 0

/-- Reads bytes. -/
def readBytes (m : Memory) (address : UInt64) (size : Nat) :
    Except EmulationError (List UInt8) := do
  m.check (·.read) address size
  return m.bytesFrom address.toNat size

/-- Writes bytes. -/
def writeBytes (m : Memory) (address : UInt64) (bytes : List UInt8) :
    Except EmulationError Memory := do
  m.check (·.write) address bytes.length
  return m.setBytes address.toNat bytes

/-- Maps a segment for all uses and writes its bytes. Where a page that was mapped before forbids
that, the memory keeps the pages that were mapped for the segment. -/
def load (m : Memory) (address : UInt64) (bytes : List UInt8) :
    Except EmulationError Unit × Memory :=
  match m.allocate address bytes.length .all with
  | .error e => (.error e, m)
  | .ok (mapped, _) =>
    match mapped.writeBytes address bytes with
    | .error e => (.error e, mapped)
    | .ok written => (.ok (), written)

/-! ## Words -/

/-- Faults unless a word may have this width. -/
def checkWidth (size : Nat) : Except EmulationError Unit :=
  if isWordWidth size then .ok () else .error (.unsupportedWidth size)

/-- Reads a word of 1, 2, 4 or 8 bytes. -/
def readWord (m : Memory) (address : UInt64) (size : Nat) : Except EmulationError UInt64 := do
  checkWidth size
  let bytes ← m.readBytes address size
  return UInt64.ofNat (natOfBytes (m.byteOrder.arrange bytes))

/-- Writes the low 1, 2, 4 or 8 bytes of a value. -/
def writeWord (m : Memory) (address value : UInt64) (size : Nat) :
    Except EmulationError Memory := do
  checkWidth size
  m.writeBytes address (m.byteOrder.arrange (bytesOfNat size value.toNat))

end Memory

end RoutineEmulator
