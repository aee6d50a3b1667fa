import RoutineEmulator.Emulation.Emulator
/-!
A structured interpreter.

`Structured.interpret` runs a statement by running the statements nested in it, without a graph: a
block runs its statements in order, an `if` runs one of its blocks, and a loop runs its body again
and again. A statement hands on a `Signal`, which tells the statement around it how to go on. Jumps to
labels have no structured meaning and are passed over.
-/

namespace RoutineEmulator.Structured

open Emulator

/-! ## Progress -/

/-- How far an emulation is: the visits that are left, the trace and the session. -/
structure Progress where
  visits : Nat
  trace : ExecutionTrace
  session : Session

/-- How control goes on after a statement. -/
inductive Signal where
  /-- With what comes after the statement. -/
  | done
  /-- Behind the innermost loop. -/
  | broke
  /-- With the next test of the innermost loop. -/
  | continued
  /-- Not at all. -/
  | ended (ending : Ending)

/-- How the emulation ends when the body hands on a signal. -/
def Signal.ending : Signal → Ending
  | ended ending => ending
  | done | broke | continued => .left

/-- What a statement does to the progress. -/
abbrev Interpreter := Progress → Signal × Progress

/-! ## Running statements -/

section

variable (settings : Settings) (r : Draft)

/-- Visits a statement: records it, then lets the simulators prepare for it and acts. How it goes on
may depend on what the action answers. -/
def visiting {α : Type} (id : StmtId) (action : Run α) (next : α → Interpreter) : Interpreter
  | ⟨0, trace, session⟩ => (.ended .cut, ⟨0, trace, session⟩)
  | ⟨visits + 1, trace, session⟩ =>
    let text := r.renderStmt id
    let trace := { trace with statements := trace.statements.push text }
    let act := do
      Evaluation.beforeStatement r id
      action
    match act.runOn (announce settings text session) with
    | (.error e, session) => (.ended (.failed e), ⟨visits, trace, session⟩)
    | (.ok a, session) => next a ⟨visits, trace, session⟩

/-- Runs statements in order, until one of them hands control elsewhere. -/
def sequence : List Interpreter → Interpreter
  | [], progress => (.done, progress)
  | first :: rest, progress =>
    match first progress with
    | (.done, progress) => sequence rest progress
    | exit => exit

/-- Evaluates predicates in order, and finds the block of the first one that is not zero. -/
def chooseBlock (default : Option StmtId) : List Branch → Run (Option StmtId)
  | [] => return default
  | branch :: rest => do
    let value ← Evaluation.eval r branch.predicate
    if value ≠ 0 then return some branch.block else chooseBlock default rest

/-- Tests a predicate and runs the body, until the predicate is zero. There are at most as many
rounds as visits, since each of them starts with a visit of the loop. -/
def repeating (id : StmtId) (predicate : Expr) (body : Interpreter) : Nat → Interpreter
  | 0, progress => (.ended .cut, progress)
  | rounds + 1, progress =>
    visiting settings r id (Evaluation.eval r predicate) (fun value progress =>
      if value = 0 then (.done, progress)
      else match body progress with
        | (.done, progress) | (.continued, progress) =>
          repeating id predicate body rounds progress
        | (.broke, progress) => (.done, progress)
        | (.ended ending, progress) => (.ended ending, progress)) progress

/-- What a statement that runs no nested statements does; a `return` answers with its value. A
`switch` is refused. -/
def perform (id : StmtId) : Stmt → Run (Option UInt64)
  | .ret (some value) => do
    let value ← Evaluation.eval r value
    Work.setRegister Register.rax value.toUInt64
    return some value.toUInt64
  | .assign _ _ (some _) _ => Work.fail (.unsupportedAssignment (r.renderStmt id))
  | .assign lhs rhs none _ => do
    Evaluation.assign r lhs rhs
    return none
  | .call c => do
    Evaluation.call r c
    return none
  | .jumpFar target => do
    let target ← Evaluation.eval r target
    Work.setRegister Register.nextHandler target.toUInt64
    return none
  | .switch .. => Work.fail (.unimplementedStatement (r.renderStmt id))
  | _ => return none

/-- How control goes on after a statement that ran no nested statements. -/
def signalOf : Stmt → Signal
  | .ret _ | .jumpFar _ => .ended .left
  | .breakLoop _ => .broke
  | .continueLoop _ => .continued
  | _ => .done

/-- The trace once a statement returned a value, or none. -/
def returning (returned : Option UInt64) (trace : ExecutionTrace) : ExecutionTrace :=
  { trace with returnValue := returned <|> trace.returnValue }

/-- Runs a statement with all that is nested in it, at most so deep. -/
def interpret : Nat → StmtId → Interpreter
  | 0, _, progress => (.done, progress)
  | depth + 1, id, progress =>
    match r.stmt? id with
    | some (.block stmts) =>
      visiting settings r id (return ()) (fun _ => sequence (stmts.map (interpret depth))) progress
    | some (.ifElse branches default) =>
      visiting settings r id (chooseBlock r default branches) (fun
        | some block => interpret depth block
        | none => fun progress => (.done, progress)) progress
    | some (.loop _ predicate body) =>
      repeating settings r id predicate (interpret depth body) progress.visits progress
    | some s =>
      visiting settings r id (perform r id s) (fun returned progress =>
        (signalOf s, { progress with trace := returning returned progress.trace })) progress
    | none => (.done, progress)

end

/-- Emulates a routine by running the statements of its body. No nesting is deeper than the number
of statements. -/
def emulate (settings : Settings) (r : Routine) (session : Session) : Outcome × Session :=
  let (simulators, log) := Simulator.beforeRoutineAll r.name session.own session.log
  let log := if settings.logTrace then log.push traceHeader else log
  let start : Progress :=
    ⟨settings.maxSteps.getD unlimited, {}, ⟨simulators, session.machine, log⟩⟩
  let (signal, progress) :=
    sequence (r.bodyStmts.map (interpret settings r.toDraft r.size)) start
  (outcome settings ⟨signal.ending, progress.trace, progress.session⟩, progress.session)

end RoutineEmulator.Structured
