import RoutineEmulator.Machine.Registers
import RoutineEmulator.Memory.Basic
import RoutineEmulator.Types
/-!
The state that a routine runs against: registers, memory, the sizes of types, and where the stack
frame lies.
-/

namespace RoutineEmulator

/-- Where local variables lie: at their offset from the value of the frame register, plus a bias. -/
structure FrameLayout where
  frameRegister : RegisterId := Register.rbp
  bias : Int64 := 8
  deriving Repr, DecidableEq, Inhabited

/-- Memory content to start from. -/
structure MemoryDump where
  address : UInt64
  bytes : List UInt8
  /-- The frame base that belongs to a dumped stack. -/
  basePointer : Option UInt64 := none

/-- A machine state. A register that was never written has no value. -/
structure Machine where
  registers : Std.ExtTreeMap RegisterId UInt64 := ∅
  memory : Memory
  types : TypeTable
  /-- The width of a pointer whose type does not tell it. -/
  pointerSize : Nat
  frame : FrameLayout := {}

namespace Machine

/-- A machine without register values. Its pointers are as wide as the addresses of its memory. -/
def new (types : TypeTable) (memory : Memory) : Machine where
  memory := memory
  types := types
  pointerSize := memory.spaceBits / 8

/-! ## Registers -/

/-- The value of a register, where it has one. -/
def register? (s : Machine) (id : RegisterId) : Option UInt64 :=
  s.registers[id]?

def setRegister (s : Machine) (id : RegisterId) (value : UInt64) : Machine :=
  { s with registers := s.registers.insert id value }

/-- Takes the value of a register away. -/
def clearRegister (s : Machine) (id : RegisterId) : Machine :=
  { s with registers := s.registers.erase id }

/-- Sets a register to the low bytes of a value. -/
def setRegisterSized (s : Machine) (id : RegisterId) (value : UInt64) (size : Nat) :
    Except EmulationError Machine := do
  Memory.checkWidth size
  return s.setRegister id (lowBytes value size)

/-! ## Memory -/

/-- Maps the gaps of a range for reading and writing. -/
def allocate (s : Machine) (address : UInt64) (size : Nat) : Except EmulationError Machine := do
  let (memory, _) ← s.memory.allocate address size .readWrite
  return { s with memory }

/-- Reads a word of 1, 2, 4 or 8 bytes. -/
def read (s : Machine) (address : UInt64) (size : Nat) : Except EmulationError UInt64 :=
  s.memory.readWord address size

/-- Reads a word; one that cannot be read counts as zero. -/
def readOrZero (s : Machine) (address : UInt64) (size : Nat) : UInt64 :=
  match s.read address size with
  | .ok value => value
  | .error _ => 0

/-- Writes the low 1, 2, 4 or 8 bytes of a value. -/
def write (s : Machine) (address value : UInt64) (size : Nat) : Except EmulationError Machine := do
  return { s with memory := ← s.memory.writeWord address value size }

/-- Copies bytes as if through a buffer. Both ranges are checked first. -/
def copy (s : Machine) (src dst : UInt64) (size : Nat) : Except EmulationError Machine := do
  s.memory.checkRange src size .readOnly
  s.memory.checkRange dst size .writeOnly
  let bytes ← s.memory.readBytes src size
  return { s with memory := ← s.memory.writeBytes dst bytes }

/-- Fills a range with one byte. -/
def fill (s : Machine) (address : UInt64) (byte : UInt8) (size : Nat) :
    Except EmulationError Machine := do
  s.memory.checkRange address size .writeOnly
  return { s with memory := ← s.memory.writeBytes address (List.replicate size byte) }

/-! ## The stack frame -/

/-- The value of the frame register. -/
def frameBase (s : Machine) : Except EmulationError UInt64 :=
  match s.register? s.frame.frameRegister with
  | some base => .ok base
  | none => .error .undefinedFrameBase

/-- The number of bytes below the page of the frame base that its stack takes. -/
def stackBelow : UInt64 := 0x100000

/-- The number of bytes that the stack around a frame base takes. -/
def stackSize : Nat := 0x110000

/-- Where the stack around a frame base starts. -/
def stackStart (base : UInt64) : UInt64 :=
  base / 4096 * 4096 - stackBelow

/-- Maps a stack around the frame base; none where the frame register has no value. -/
def allocateStackSpace (s : Machine) : Except EmulationError (Option Machine) :=
  match s.register? s.frame.frameRegister with
  | none => .ok none
  | some base => some <$> s.allocate (stackStart base) stackSize

/-- Maps a dump for reading and writing, and writes its bytes. -/
def addDump (s : Machine) (dump : MemoryDump) : Except EmulationError Machine := do
  let s ← s.allocate dump.address dump.bytes.length
  return { s with memory := ← s.memory.writeBytes dump.address dump.bytes }

/-- A machine over a memory with a dumped stack and heap in it. The base pointer of the stack
becomes the frame base. -/
def ofDumps (types : TypeTable) (memory : Memory) (stack heap : Option MemoryDump) :
    Except EmulationError Machine := do
  let s ← (stack.toList ++ heap.toList).foldlM addDump (new types memory)
  match stack.bind (·.basePointer) with
  | some base => return s.setRegister s.frame.frameRegister base
  | none => return s

/-! ## Types -/

/-- The size of a type. -/
def typeSize (s : Machine) (signature : String) : Except EmulationError Nat :=
  match s.types.sizeOf? signature with
  | some size => .ok size
  | none => .error (.unknownType signature)

/-- The size of what a pointer of this type points to; the default pointer size for a type that is
no pointer. -/
def baseTypeSize (s : Machine) (signature : String) : Except EmulationError Nat :=
  match baseSignature? signature with
  | some base =>
    match s.types.sizeOf? base with
    | some size => .ok size
    | none => .error (.unknownType ("base type of " ++ signature))
  | none =>
    if 0 < s.pointerSize then .ok s.pointerSize else .error (.notAPointerType signature)

/-! ## Variables -/

/-- The word for a storage class in an error. -/
def className : StorageClass → String
  | .local => "Local"
  | .global => "Global"
  | .register => "Register"
  | .parameter => "Parameter"

/-- The address of a variable in memory. -/
def varAddress (s : Machine) (var : Identifier) : Except EmulationError UInt64 :=
  match var.storage with
  | .local => do
    return (var.address + s.frame.bias).toUInt64 + (← s.frameBase)
  | .global => .ok var.address.toUInt64
  | .register | .parameter =>
    .error (.unsupportedIdentifierClass (var.name ++ " (" ++ className var.storage ++ ")"))

/-- The value of a variable; none for a register that was never written. -/
def varValue (s : Machine) (var : Identifier) : Except EmulationError (Option UInt64) :=
  match var.storage with
  | .local | .global => do
    let size ← s.typeSize var.type
    some <$> s.read (← s.varAddress var) size
  | .register | .parameter => .ok (s.register? var.id)

/-- Stores the low bytes of a value into a variable, as many as its type has. -/
def setVarValue (s : Machine) (var : Identifier) (value : UInt64) :
    Except EmulationError Machine := do
  let size ← s.typeSize var.type
  match var.storage with
  | .local | .global => s.write (← s.varAddress var) value size
  | .register | .parameter => s.setRegisterSized var.id value size

/-! ## Dumping -/

/-- The registers in the order of their numbers, and the number of mapped pages. -/
def dump (s : Machine) : String :=
  "Registers:\n"
    ++ String.join (s.registers.toList.map fun (id, value) =>
      "  " ++ Register.name id ++ " (" ++ toString id.toInt ++ "): "
        ++ Text.hexAddress value.toNat ++ "\n")
    ++ "Mapped pages: " ++ toString s.memory.pageCount ++ "\n"

end Machine

end RoutineEmulator
