import RoutineEmulator.Emulation.Evaluation
/-!
What the simulators do before a statement is executed: a stack machine logs the test of the next
two-way branch after a pop.
-/

namespace RoutineEmulator.Evaluation

variable (r : Draft)

/-- The test inside at most one predicate wrapper. -/
def testOf : Expr → Expr
  | .predicate inner => inner
  | e => e

/-- The spelling of an operator as a test that holds or fails. -/
def testSymbol (o : Operator) (holds : Bool) : String :=
  if holds then o.symbol
  else match o.negated? with
    | some negated => negated.symbol
    | none => "!" ++ o.symbol

/-- The line for a test with these operands. A constant second operand is shown. -/
def testLine (symbol : String) (operands : List Expr) : String :=
  match (operands[1]? : Option Expr) with
  | some (.int constant) => "S: TEST (" ++ symbol ++ ",cte=" ++ toString constant.toInt ++ ")"
  | _ => "S: TEST (" ++ symbol ++ ",#op=" ++ toString operands.length ++ ")"

/-- Evaluates and logs the test of a branch. A test that is no operation is not logged. -/
def logTest (predicate : Expr) : Run Unit :=
  let test := testOf predicate
  match test.op? with
  | none => return
  | some (o, operands) => do
    let value ← eval r test
    Work.say (testLine (testSymbol o (value != 0)) operands)

/-- The first predicate of an `if` with at most two blocks; none inside for an `if` without one. -/
def twoWayTest? : Stmt → Option (Option Expr)
  | .ifElse branches default =>
    if branches.length + default.toList.length ≤ 2 then
      some (branches.head?.map (·.predicate))
    else none
  | _ => none

/-- What the simulator at a place of the chain does before a statement. -/
def beforeStatementAt (id : StmtId) (place : Nat) : Run Unit := do
  match (← Work.own)[place]? with
  | some (.stackMachine m) =>
    if m.pops ≠ 0 then
      match (r.stmt? id).bind twoWayTest? with
      | some test =>
        if let some predicate := test then logTest r predicate
        Work.setOwn ((← Work.own).modify place Simulator.settlePops)
      | none => return
  | some (.scripted script) =>
    if script.hooks then Work.say (script.name ++ ": stmt " ++ toString id.index)
    if script.failAt = some id then Work.fail (.unimplementedStatement Script.failText)
  | _ => return

/-- What the simulators do before a statement, in order. -/
def beforeStatement (id : StmtId) : Run Unit := do
  (List.range (← Work.own).length).forM (beforeStatementAt r id)

end RoutineEmulator.Evaluation
