import RoutineEmulator.Log
import RoutineEmulator.Machine.Basic
/-!
Where simulated routines work: the state of the simulator, the machine and the log.

A computation on a bench keeps what it changed when it fails, so that the bench after a failure can
be seen.
-/

namespace RoutineEmulator

/-- The machine and the log, with a state of the one who works on them. -/
structure Bench (σ : Type) where
  own : σ
  machine : Machine
  log : OutputLog := {}

/-- A computation on a bench that may fail. -/
abbrev Work (σ α : Type) := ExceptT EmulationError (StateM (Bench σ)) α

namespace Work

/-- Runs a computation; its changes stay also where it fails. -/
def runOn (work : Work σ α) (bench : Bench σ) : Except EmulationError α × Bench σ :=
  StateT.run (ExceptT.run work) bench

/-- A computation that fails. -/
def fail (e : EmulationError) : Work σ α :=
  throw e

/-- The machine as it is. -/
def machine : Work σ Machine := do
  return (← get).machine

/-- Asks something of the machine. -/
def ask (question : Machine → Except EmulationError α) : Work σ α := do
  match question (← get).machine with
  | .ok a => return a
  | .error e => fail e

/-- Changes the machine. -/
def change (step : Machine → Except EmulationError Machine) : Work σ Unit := do
  let bench ← get
  match step bench.machine with
  | .ok machine => set { bench with machine }
  | .error e => fail e

/-- Sets a register. -/
def setRegister (id : RegisterId) (value : UInt64) : Work σ Unit :=
  modify fun bench => { bench with machine := bench.machine.setRegister id value }

/-- The state of the one who works. -/
def own : Work σ σ := do
  return (← get).own

def setOwn (own : σ) : Work σ Unit :=
  modify fun bench => { bench with own }

/-- Appends a line to the log. -/
def say (line : String) : Work σ Unit :=
  modify fun bench => { bench with log := bench.log.push line }

end Work

end RoutineEmulator
