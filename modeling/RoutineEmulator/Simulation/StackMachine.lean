import RoutineEmulator.Routine.Expr
import RoutineEmulator.Simulation.Bench
/-!
A stack machine whose operand stack is a linked list in memory.

The stack cell links to the newest chunk. A chunk holds the link to the one before it in its first
eight bytes and a value of four bytes behind them. The handlers work on the list and log what they
do, so that a run reads as a listing of the machine's program.
-/

namespace RoutineEmulator

/-- The names of the handlers, and how chunks and characters are given out. -/
structure StackLayout where
  push : String := "sub_400AAE"
  pop : String := "sub_4009D7"
  get : String := "sub_400D08"
  set : String := "sub_400D55"
  swap : String := "sub_402AB2"
  /-- The address of the first chunk. -/
  chunkBase : UInt64 := 0x1000000
  chunkSize : UInt64 := 16
  /-- The first character of the input. -/
  firstChar : UInt8 := 97
  deriving Repr, DecidableEq, Inhabited

/-- The state of a simulated stack machine. -/
structure StackMachine where
  layout : StackLayout := {}
  /-- The address of the chunk that the next push takes. -/
  nextChunk : UInt64 := layout.chunkBase
  /-- The pops since a test or an operation was logged. -/
  pops : Nat := 0
  /-- The character that the next input yields. -/
  currentChar : UInt8 := layout.firstChar
  deriving Repr, DecidableEq, Inhabited

namespace StackMachine

inductive Handler where
  | getchar | putchar | push | pop | get | set | swap
  deriving Repr, DecidableEq

/-- The handler of this name. Input and output come before the configured names. -/
def named? (layout : StackLayout) (name : String) : Option Handler :=
  if name = "getchar" then some .getchar
  else if name = "putchar" then some .putchar
  else if name = layout.push then some .push
  else if name = layout.pop then some .pop
  else if name = layout.get then some .get
  else if name = layout.set then some .set
  else if name = layout.swap then some .swap
  else none

/-- The number of arguments that a handler looks at. -/
def Handler.arity : Handler → Nat
  | getchar | putchar | swap => 0
  | pop => 1
  | push | get => 2
  | set => 3

/-! ## The list -/

/-- The number of links that are followed before a list counts as corrupt. -/
def maxLinks : Nat := 0x100000

/-- The number of links from `current` to the end of the list, after `len` links from `cell`; `left`
more may follow. -/
def linkCount (s : Machine) (cell : UInt64) : Nat → UInt64 → Nat → Except EmulationError Nat
  | left, current, len =>
    if current = 0 then .ok len
    else match left with
      | 0 => .error (.memoryAccessFault cell 8)
      | left + 1 =>
        match s.read current 8 with
        | .error e => .error e
        | .ok next => linkCount s cell left next (len + 1)

/-- The cell so many links away. -/
def follow (s : Machine) : Nat → UInt64 → Except EmulationError UInt64
  | 0, cell => .ok cell
  | hops + 1, cell =>
    match s.read cell 8 with
    | .error e => .error e
    | .ok next => follow s hops next

/-- How many links lead to the element with an index, in a list of so many links. The oldest element
has index 0. -/
def hopsTo? (links : Nat) (index : Int64) : Option Nat :=
  let hops := (links : Int) - 1 - index.toInt
  if 0 ≤ hops ∧ hops < 0x8000000000000000 then some hops.toNat else none

/-- The element with an index, counted from the oldest one. -/
def elementAt (s : Machine) (cell : UInt64) (index : Int64) : Except EmulationError UInt64 := do
  let links ← linkCount s cell maxLinks cell 0
  match hopsTo? links index with
  | some hops => follow s hops cell
  | none =>
    .error (.unimplementedExpression
      ("stack index " ++ toString index.toInt ++ " out of range (" ++ toString (links - 1)
        ++ " elements)"))

/-- Where a chunk holds its value. -/
def valueOffset : UInt64 := 8

/-! ## The handlers -/

/-- Takes the next chunk, then maps it. -/
def allocateChunk : Work StackMachine UInt64 := do
  let m ← Work.own
  Work.setOwn { m with nextChunk := m.nextChunk + m.layout.chunkSize }
  Work.change (·.allocate m.nextChunk m.layout.chunkSize.toNat)
  return m.nextChunk

/-- Logs the operation whose result is pushed, where the two values before it were popped. -/
def logOperation (pushed : Option Expr) : Work StackMachine Unit := do
  let m ← Work.own
  if m.pops = 2 then
    match pushed.bind (·.stripCasts.op?) with
    | some (o, operands) =>
      Work.say ("  | operation: (" ++ o.symbol ++ ",#op=" ++ toString operands.length ++ ")")
      Work.setOwn { m with pops := 0 }
    | none => return

def push (cell value : Int64) (pushed : Option Expr) : Work StackMachine Int64 := do
  let chunk ← allocateChunk
  Work.change (·.write (chunk + valueOffset) value.toUInt64 4)
  let head ← Work.ask (·.read cell.toUInt64 8)
  Work.change (·.write chunk head 8)
  Work.change (·.write cell.toUInt64 chunk 8)
  Work.say ("S: PUSH " ++ toString value.toInt)
  logOperation pushed
  return 0

def pop (cell : Int64) : Work StackMachine Int64 := do
  let head ← Work.ask (·.read cell.toUInt64 8)
  let value ← Work.ask (·.read (head + valueOffset) 4)
  let next ← Work.ask (·.read head 8)
  Work.change (·.write cell.toUInt64 next 8)
  Work.say ("S: POP (" ++ toString value.toNat ++ ")")
  let m ← Work.own
  Work.setOwn { m with pops := m.pops + 1 }
  return value.toInt64

def get (cell index : Int64) : Work StackMachine Int64 := do
  let element ← Work.ask (elementAt · cell.toUInt64 index)
  let value ← Work.ask (·.read (element + valueOffset) 4)
  Work.say ("S: GET index:" ++ toString index.toInt)
  return value.toInt64

def set (cell index value : Int64) : Work StackMachine Int64 := do
  let element ← Work.ask (elementAt · cell.toUInt64 index)
  Work.change (·.write (element + valueOffset) value.toUInt64 4)
  Work.say ("S: SET index:" ++ toString index.toInt ++ " value:" ++ toString value.toInt)
  return element.toInt64

def getchar : Work StackMachine Int64 := do
  let m ← Work.own
  Work.setOwn { m with currentChar := m.currentChar + 1 }
  return Int64.ofNat m.currentChar.toNat

/-- The line that a swap logs, as a call or as the start of its routine. -/
def swapLine : String := "S: SWAP"

/-- Runs a handler on the values of its arguments; `args` are the arguments as written. -/
def Handler.run : Handler → List Expr → List Int64 → Work StackMachine Int64
  | getchar, _, _ => StackMachine.getchar
  | putchar, _, _ => return 0
  | push, args, [cell, value] => StackMachine.push cell value args[1]?
  | pop, _, [cell] => StackMachine.pop cell
  | get, _, [cell, index] => StackMachine.get cell index
  | set, _, [cell, index, value] => StackMachine.set cell index value
  | swap, _, _ => do
    Work.say swapLine
    return 0
  | _, _, _ => return 0

end StackMachine

end RoutineEmulator
