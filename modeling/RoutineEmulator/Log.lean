import RoutineEmulator.Json.Decoding
/-!
What an emulation leaves behind for a reader: the output log, and the trace of one routine.

The log only grows. A sink receives the whole text, and only when something was appended since it
last took the text.
-/

namespace RoutineEmulator

/-! ## The output log -/

/-- The lines of a log, and how many of them its sink has taken. -/
structure OutputLog where
  lines : Array String := #[]
  flushed : Nat := 0
  deriving DecidableEq, Inhabited

namespace OutputLog

/-- Appends a line. -/
def push (log : OutputLog) (line : String) : OutputLog :=
  { log with lines := log.lines.push line }

/-- Some lines as text, each with a line break behind it. -/
def textOf (lines : List String) : String :=
  String.join (lines.map (· ++ "\n"))

/-- The whole log. -/
def text (log : OutputLog) : String :=
  textOf log.lines.toList

/-- The number of bytes of the text. -/
def byteLength (log : OutputLog) : Nat :=
  log.text.utf8ByteSize

def isEmpty (log : OutputLog) : Bool :=
  log.lines.isEmpty

/-- Whether something was appended since the sink last took the text. -/
def hasUnflushed (log : OutputLog) : Bool :=
  log.lines.size != log.flushed

/-- Hands the whole text to a sink, if it grew since the sink last took it. Tells whether the sink
was called; a sink that refuses the text will be offered it again. -/
def flush (log : OutputLog) (write : String → σ → Except ε σ) (sink : σ) :
    Except ε (Bool × OutputLog × σ) := do
  if log.hasUnflushed then
    let sink ← write log.text sink
    return (true, { log with flushed := log.lines.size }, sink)
  else return (false, log, sink)

end OutputLog

/-! ## Traces -/

/-- The run of one routine: the text of every statement that was visited, the value of the last
`return` that had one, and the next handler at the end. -/
structure ExecutionTrace where
  statements : Array String := #[]
  returnValue : Option UInt64 := none
  nextHandler : Option UInt64 := none
  deriving DecidableEq, Inhabited

namespace ExecutionTrace

def size (t : ExecutionTrace) : Nat :=
  t.statements.size

/-- The first position at which two lists differ, where one that ends differs from one that goes
on. -/
def firstDifference : List String → List String → Option Nat
  | [], [] => none
  | a :: as, b :: bs => if a = b then (firstDifference as bs).map (· + 1) else some 0
  | _, _ => some 0

/-- The first statement at which two traces part. -/
def divergence? (t u : ExecutionTrace) : Option Nat :=
  firstDifference t.statements.toList u.statements.toList

def toJson (t : ExecutionTrace) : Json :=
  .record
    [("statements", .list .text t.statements.toList),
     ("return_value", .option (.nat ·.toNat) t.returnValue),
     ("next_handler", .option (.nat ·.toNat) t.nextHandler)]

def decode : Nat → Json → Option ExecutionTrace
  | 0, _ => none
  | depth + 1, value => do
    match ← Json.fields? ["statements", "return_value", "next_handler"] value with
    | [statements, returnValue, nextHandler] =>
      return {
        statements := (← statements.required (Json.listOf (fun _ => Json.text?) depth)).toArray
        returnValue := ← returnValue.optional Json.word64?
        nextHandler := ← nextHandler.optional Json.word64? }
    | _ => none

end ExecutionTrace

end RoutineEmulator
