import RoutineEmulator.Routine.Stmt
import RoutineEmulator.Simulation.Libc
import RoutineEmulator.Simulation.Names
import RoutineEmulator.Simulation.StackMachine
/-!
The chain of simulators that answers resolved calls.

A simulator recognises a call by the normalised name of its callee. Then it demands a number of the
arguments, which are evaluated from left to right, and answers with a value. The first simulator
that recognises a call answers it, and no later one is asked.
-/

namespace RoutineEmulator

/-- Canned answers for named routines. -/
structure Script where
  name : String := ""
  /-- Routines that answer with a fixed value. -/
  answers : List (String × Int64) := []
  /-- Routines that answer with the sum of all their arguments. -/
  sums : List String := []
  /-- Whether the start of a routine and every statement are logged. -/
  hooks : Bool := false
  /-- The statement that may not be visited. -/
  failAt : Option StmtId := none

/-- The text that stands for the statement that a script does not let pass. -/
def Script.failText : String := "stub"

/-- A simulator with its state. -/
inductive Simulator where
  | libc (state : Libc)
  | stackMachine (state : StackMachine)
  | scripted (script : Script)

/-- The arguments that a simulated routine looks at. -/
inductive Demand where
  | first (count : Nat)
  | all

/-- How many of `given` arguments are demanded. -/
def Demand.count (given : Nat) : Demand → Nat
  | first n => n
  | all => given

namespace Simulator

/-- The short name of a simulator. -/
def name : Simulator → String
  | libc _ => "libc"
  | stackMachine _ => "stack-machine"
  | scripted script => script.name

/-- What the simulator demands for a call of this name, where it recognises it. -/
def demand? (s : Simulator) (callee : String) : Option Demand :=
  match s with
  | libc _ => (Libc.named? callee).map fun f => .first f.arity
  | stackMachine m => (StackMachine.named? m.layout callee).map fun h => .first h.arity
  | scripted script =>
    if script.sums.contains callee then some .all
    else (script.answers.lookup callee).map fun _ => .first 0

/-- Works on a bench of its own state, and puts that state back into a simulator. -/
def workAs (wrap : σ → Simulator) (state : σ) (work : Work σ Int64) (machine : Machine)
    (log : OutputLog) : Except EmulationError Int64 × Bench Simulator :=
  let (result, bench) := work.runOn ⟨state, machine, log⟩
  (result, ⟨wrap bench.own, bench.machine, bench.log⟩)

/-- The answer to a call with these arguments, where the simulator recognises it. -/
def respond? (s : Simulator) (callee : String) (args : List Expr) (values : List Int64)
    (machine : Machine) (log : OutputLog) :
    Option (Except EmulationError Int64 × Bench Simulator) :=
  match s with
  | libc state =>
    (Libc.named? callee).map fun f => workAs .libc state (f.run values) machine log
  | stackMachine state =>
    (StackMachine.named? state.layout callee).map fun h =>
      workAs .stackMachine state (h.run args values) machine log
  | scripted script =>
    if script.sums.contains callee then
      some (.ok (values.foldl (· + ·) 0), ⟨scripted script, machine, log⟩)
    else
      (script.answers.lookup callee).map fun value => (.ok value, ⟨scripted script, machine, log⟩)

/-- What a simulator does before the first statement of a routine. -/
def beforeRoutine (s : Simulator) (routine : String) (log : OutputLog) : Simulator × OutputLog :=
  match s with
  | libc state => (libc state, log)
  | stackMachine state =>
    (stackMachine { state with pops := 0 },
      if normalizeName routine = state.layout.swap then log.push StackMachine.swapLine else log)
  | scripted script =>
    (scripted script,
      if script.hooks then log.push (script.name ++ ": routine " ++ routine) else log)

/-- The pops of a stack machine since a test or an operation was logged. -/
def pendingPops? : Simulator → Option Nat
  | stackMachine state => some state.pops
  | _ => none

/-- The simulator once a test was logged: no pops are pending. -/
def settlePops : Simulator → Simulator
  | stackMachine state => stackMachine { state with pops := 0 }
  | s => s

end Simulator

/-- What an evaluation works on: the chain of simulators, the machine and the log. -/
abbrev Session := Bench (List Simulator)

/-- An evaluation. -/
abbrev Run (α : Type) := Work (List Simulator) α

namespace Simulator

/-- Asks the simulators of a chain in order for an answer to a call. -/
def respondFirst (callee : String) (args : List Expr) (values : List Int64) :
    List Simulator → Machine → OutputLog → Except EmulationError (Option Int64) × Session
  | [], machine, log => (.ok none, ⟨[], machine, log⟩)
  | s :: rest, machine, log =>
    match s.respond? callee args values machine log with
    | some (result, bench) => (result.map some, ⟨bench.own :: rest, bench.machine, bench.log⟩)
    | none =>
      let (result, session) := respondFirst callee args values rest machine log
      (result, { session with own := s :: session.own })

/-- Lets the simulators of a chain prepare for a routine, in order. -/
def beforeRoutineAll (routine : String) :
    List Simulator → OutputLog → List Simulator × OutputLog
  | [], log => ([], log)
  | s :: rest, log =>
    let (s, log) := s.beforeRoutine routine log
    let (rest, log) := beforeRoutineAll routine rest log
    (s :: rest, log)

end Simulator

end RoutineEmulator
