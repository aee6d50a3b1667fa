import RoutineEmulator.Emulation.Hooks
import RoutineEmulator.Graph
/-!
The emulator: walks the flow graph of a routine and executes its statements.

A walk visits at most so many statements. `Emulator.walk` recurses on the visits that are left, so a
smaller limit only cuts a walk off.
-/

namespace RoutineEmulator

namespace Emulator

/-- How a routine is emulated. -/
structure Settings where
  /-- The number of statements that a routine may visit; no limit for none. -/
  maxSteps : Option Nat := none
  /-- Whether every visited statement is logged. -/
  logTrace : Bool := true

/-- The line before the statements of a routine in the log. -/
def traceHeader : String := "> emulator trace:"

/-! ## One statement -/

/-- What the execution of a statement tells: where control goes, and a value that was returned. -/
structure Step where
  next : Option StmtId
  returned : Option UInt64 := none

/-- The arm that an `if` takes: the number of the first predicate that is not zero. -/
def chooseBranch (r : Draft) : List Branch → Nat → Run (Option Nat)
  | [], _ => return none
  | b :: rest, n => do
    let value ← Evaluation.eval r b.predicate
    if value ≠ 0 then return some n else chooseBranch r rest (n + 1)

/-- Executes a statement. -/
def execute (r : Draft) (g : Graph) (id : StmtId) : Stmt → Run Step
  | .goto _ | .label _ | .block _ | .decl _ | .breakLoop _ | .continueLoop _ | .ret none =>
    return { next := g.next id }
  | .ret (some value) => do
    let value ← Evaluation.eval r value
    Work.setRegister Register.rax value.toUInt64
    return { next := g.next id, returned := some value.toUInt64 }
  | .assign _ _ (some _) _ => Work.fail (.unsupportedAssignment (r.renderStmt id))
  | .assign lhs rhs none _ => do
    Evaluation.assign r lhs rhs
    return { next := g.next id }
  | .ifElse branches default => do
    match ← chooseBranch r branches 0 with
    | some n => return { next := g.nthNext id n }
    | none =>
      return { next := if default.isSome then g.nthNext id branches.length else g.next id }
  | .loop _ predicate _ => do
    let value ← Evaluation.eval r predicate
    return { next := if value ≠ 0 then g.nthNext id 0 else g.next id }
  | .call c => do
    Evaluation.call r c
    return { next := g.next id }
  | .jumpFar target => do
    let target ← Evaluation.eval r target
    Work.setRegister Register.nextHandler target.toUInt64
    return { next := g.next id }
  | .switch .. => Work.fail (.unimplementedStatement (r.renderStmt id))

/-- Lets the simulators prepare for a statement, then executes it. -/
def visit (r : Draft) (g : Graph) (id : StmtId) : Run Step := do
  Evaluation.beforeStatement r id
  match r.stmt? id with
  | some s => execute r g id s
  | none => return { next := none }

/-! ## Walking -/

/-- How a walk ends. -/
inductive Ending where
  /-- Control left the routine. -/
  | left
  /-- The visit of the last statement of the trace failed. -/
  | failed (cause : EmulationError)
  /-- No visits were left for the next statement. -/
  | cut
  deriving DecidableEq

/-- A walk at its end. -/
structure Walk where
  ending : Ending
  trace : ExecutionTrace
  session : Session

/-- The trace once a statement was executed. -/
def record (trace : ExecutionTrace) (step : Step) : ExecutionTrace :=
  { trace with returnValue := step.returned <|> trace.returnValue }

/-- The session with the line of a visited statement in its log. -/
def announce (settings : Settings) (text : String) (session : Session) : Session :=
  if settings.logTrace then { session with log := session.log.push (" " ++ text) } else session

/-- Visits statements from `current` on, at most so many. -/
def walk (settings : Settings) (r : Draft) (g : Graph) :
    Nat → Option StmtId → ExecutionTrace → Session → Walk
  | _, none, trace, session => ⟨.left, trace, session⟩
  | 0, some _, trace, session => ⟨.cut, trace, session⟩
  | visits + 1, some id, trace, session =>
    let text := r.renderStmt id
    let trace := { trace with statements := trace.statements.push text }
    match (visit r g id).runOn (announce settings text session) with
    | (.error e, session) => ⟨.failed e, trace, session⟩
    | (.ok step, session) => walk settings r g visits step.next (record trace step) session

/-- The number of visits that stands for no limit. No machine holds a trace of that length. -/
def unlimited : Nat := 0x4000000000000000

/-- The outcome of an emulation. -/
inductive Outcome where
  | finished (trace : ExecutionTrace)
  | failed (cause : EmulationError)
  /-- A run without a step limit that did not end within `unlimited` visits. -/
  | unfinished

/-- The outcome of a walk: a trace that is complete also names the next handler. -/
def outcome (settings : Settings) (w : Walk) : Outcome :=
  match w.ending, settings.maxSteps with
  | .left, _ =>
    .finished
      { w.trace with nextHandler := w.session.machine.register? Register.nextHandler }
  | .failed e, _ => .failed e
  | .cut, some limit => .failed (.stepLimitExceeded limit)
  | .cut, none => .unfinished

/-! ## Emulating -/

/-- Emulates a routine from a statement that its graph gives. -/
def run (settings : Settings) (r : Draft) (entry : Graph → Option StmtId) (session : Session) :
    Outcome × Session :=
  let (simulators, log) := Simulator.beforeRoutineAll r.name session.own session.log
  let session : Session := ⟨simulators, session.machine, log⟩
  match Graph.build r with
  | .error e => (.failed e, session)
  | .ok g =>
    let session :=
      if settings.logTrace then { session with log := session.log.push traceHeader } else session
    let w := walk settings r g (settings.maxSteps.getD unlimited) (entry g) {} session
    (outcome settings w, w.session)

/-- Emulates a routine from its first statement. -/
def emulate (settings : Settings) (r : Routine) (session : Session) : Outcome × Session :=
  run settings r.toDraft (·.entry) session

/-- Emulates a routine from a statement of its arena. -/
def emulateFrom (settings : Settings) (r : Routine) (entry : StmtId) (session : Session) :
    Outcome × Session :=
  if r.contains entry then run settings r.toDraft (fun _ => some entry) session
  else
    (.failed (.missingEntryPoint ("#" ++ toString entry.index ++ " in " ++ r.name)), session)

end Emulator

end RoutineEmulator
