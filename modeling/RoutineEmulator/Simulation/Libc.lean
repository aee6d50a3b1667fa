import RoutineEmulator.Simulation.Bench
/-!
The C library routines that handlers call.

Time and seeding answer with fixed values, so that runs repeat exactly; random numbers come from a
linear congruential generator.
-/

namespace RoutineEmulator

/-- The state of the simulated C library. -/
structure Libc where
  seed : UInt32 := 1
  deriving DecidableEq, Inhabited

namespace Libc

inductive Function where
  | time | srand | rand | memcpy | memset | strlen
  deriving Repr, DecidableEq

def named? : String → Option Function
  | "time" => some .time
  | "srand" => some .srand
  | "rand" => some .rand
  | "memcpy" => some .memcpy
  | "memset" => some .memset
  | "strlen" => some .strlen
  | _ => none

/-- The number of arguments that a routine looks at. -/
def Function.arity : Function → Nat
  | time | rand => 0
  | srand | strlen => 1
  | memcpy | memset => 3

/-- The number of bytes that a text may have. -/
def maxTextLength : Nat := 0x100000

/-- The successor of a seed. -/
def nextSeed (seed : UInt32) : UInt32 :=
  seed * 1103515245 + 12345

/-- The random number that belongs to a seed, below 2^15. -/
def randomOf (seed : UInt32) : Int64 :=
  Int64.ofNat (seed.toNat / 0x10000 % 0x8000)

/-- A length argument as a count of bytes. A negative one faults at the destination. -/
def byteCount (dst n : Int64) : Except EmulationError Nat :=
  if 0 ≤ n then .ok n.toInt.toNat
  else .error (.memoryAccessFault dst.toUInt64 n.toUInt64.toNat)

/-- The number of bytes before the first zero byte, where `len` of them are known and `left` more
may follow. Addresses wrap round. -/
def textLength (s : Machine) (start : UInt64) : Nat → Nat → Except EmulationError Nat
  | 0, _ => .error (.memoryAccessFault start maxTextLength)
  | left + 1, len =>
    match s.read (start + UInt64.ofNat len) 1 with
    | .error e => .error e
    | .ok byte => if byte = 0 then .ok len else textLength s start left (len + 1)

def srand (seed : Int64) : Work Libc Int64 := do
  Work.setOwn { seed := seed.toUInt64.toUInt32 }
  return 37

def rand : Work Libc Int64 := do
  let seed := nextSeed (← Work.own).seed
  Work.setOwn { seed }
  return randomOf seed

def memcpy (dst src n : Int64) : Work Libc Int64 := do
  let size ← Work.ask fun _ => byteCount dst n
  Work.change (·.copy src.toUInt64 dst.toUInt64 size)
  return dst

def memset (dst byte n : Int64) : Work Libc Int64 := do
  let size ← Work.ask fun _ => byteCount dst n
  Work.change (·.fill dst.toUInt64 byte.toUInt64.toUInt8 size)
  return dst

def strlen (s : Int64) : Work Libc Int64 := do
  let length ← Work.ask (textLength · s.toUInt64 maxTextLength 0)
  return Int64.ofNat length

/-- Runs a routine on the values of its arguments. -/
def Function.run : Function → List Int64 → Work Libc Int64
  | time, _ => return 42
  | srand, [seed] => Libc.srand seed
  | rand, _ => Libc.rand
  | memcpy, [dst, src, n] => Libc.memcpy dst src n
  | memset, [dst, byte, n] => Libc.memset dst byte n
  | strlen, [s] => Libc.strlen s
  | _, _ => return 0

end Libc

end RoutineEmulator
