import RoutineEmulator.Emulation.Arithmetic
import RoutineEmulator.Routine.Rendering
import RoutineEmulator.Simulation.Chain
/-!
Evaluation of expressions, and of the two statements that are made of them alone: assignments and
calls.

The value of an expression is a 64-bit number. Only calls change anything, and only through the
simulators that answer them; a call of a computed target sets the next handler.
-/

namespace RoutineEmulator

/-- Where a dereference reads or writes. -/
structure DerefTarget where
  address : UInt64
  /-- The width of the access in bytes. -/
  size : Nat
  /-- Whether the value that is read there is sign-extended. -/
  signed : Bool
  deriving Repr, DecidableEq

namespace Evaluation

variable (r : Draft)

/-! ## Identifiers -/

/-- The identifier with this number. -/
def identOf (id : IdentId) : Run Identifier :=
  match r.ident? id with
  | some ident => return ident
  | none => Work.fail (.unimplementedExpression ("<ident #" ++ toString id.index ++ ">"))

/-- The value of a variable. A register that was never written counts as zero. -/
def readIdent (id : IdentId) : Run Int64 := do
  let ident ← identOf r id
  let value ← Work.ask (·.varValue ident)
  return (value.getD 0).toInt64

/-- The fault of an expression that cannot be evaluated. -/
def unimplemented (e : Expr) : Run α :=
  Work.fail (.unimplementedExpression (r.renderExpr e))

/-! ## Dereferences -/

/-- The width of a pointer whose type is not known. -/
def defaultWidth (operand : Expr) : Run Nat := do
  let size := (← Work.machine).pointerSize
  if size = 0 then Work.fail (.notAPointerType (r.renderExpr operand)) else return size

/-- The width of an access through an operand that is not a conversion of something: the size of
what a pointer variable points to, that of the first variable in pointer arithmetic, or the
default. -/
def accessWidth (operand : Expr) : Run Nat :=
  match operand with
  | .ident id => do
    let ident ← identOf r id
    Work.ask (·.baseTypeSize ident.type)
  | .op (.cast _) [] => unimplemented r operand
  | .op .. =>
    match operand.basePointer? with
    | some id => do
      let ident ← identOf r id
      Work.ask (·.baseTypeSize ident.type)
    | none => defaultWidth r operand
  | .int _ | .ptr _ => defaultWidth r operand
  | .predicate _ | .call .. =>
    Work.fail (.unimplementedExpression ("*" ++ r.renderExpr operand))

/-- The target of a dereference: its width is found first, then the pointer is evaluated. -/
def targetOf (width : Run Nat) (pointer : Run Int64) (signed : Bool) : Run DerefTarget := do
  let size ← width
  let address ← pointer
  return { address := address.toUInt64, size, signed }

/-- Reads through a dereference. What cannot be read counts as zero. -/
def load (target : DerefTarget) : Run Int64 := do
  let raw := (← Work.machine).readOrZero target.address target.size
  return if target.signed then signExtend raw target.size else raw.toInt64

/-! ## Calls -/

/-- Lets the chain answer a call, where one of its simulators recognises it. `evalArgs` evaluates
so many arguments. -/
def simulateWith (callee : Callee) (args : List Expr) (evalArgs : Nat → Run (List Int64)) :
    Run (Option Int64) := do
  let name := normalizeName callee.name
  match (← Work.own).findSome? (·.demand? name) with
  | none => return none
  | some demand =>
    let values ← evalArgs (demand.count args.length)
    let bench ← get
    let (result, bench) := Simulator.respondFirst name args values bench.own bench.machine bench.log
    set bench
    match result with
    | .ok answer => return answer
    | .error e => Work.fail e

/-- Executes a call. The answer of the chain goes to the result register; a computed target goes to
the next-handler register. -/
def callWith (c : Call) (evalSite : Run Int64) (evalArgs : String → Nat → Run (List Int64)) :
    Run Unit :=
  match c.callee with
  | some callee => do
    match ← simulateWith callee c.args (evalArgs callee.name) with
    | some value => Work.setRegister Register.rax value.toUInt64
    | none => Work.fail (.unresolvedCallTarget (r.renderCall c))
  | none => do
    let target ← evalSite
    Work.setRegister Register.nextHandler target.toUInt64

/-- The value of a call that was executed. A result register without a value counts as zero. -/
def callResult : Run Int64 := do
  return (((← Work.machine).register? Register.rax).getD 0).toInt64

/-! ## Expressions -/

mutual

/-- The value of an expression. An operation with a wrong number of operands is refused before any
of them is evaluated. -/
def eval : Expr → Run Int64
  | .int value => return value
  | .ptr address => return address.toInt64
  | .ident id => readIdent r id
  | .predicate inner => do
    let value ← eval inner
    return ofTruth (value != 0)
  | .call callee callsite args => do
    callWith r ⟨callee, callsite, args⟩ (eval callsite) (fun name => evalArgs name args 0)
    callResult
  | .op .logAnd [a, b] => do
    if (← eval a) = 0 then return 0
    let value ← eval b
    return ofTruth (value != 0)
  | .op .logOr [a, b] => do
    if (← eval a) ≠ 0 then return 1
    let value ← eval b
    return ofTruth (value != 0)
  | .op .cond [c, a, b] => do
    if (← eval c) ≠ 0 then eval a else eval b
  | .op (.cast type) [a] => do
    let size ← Work.ask (·.typeSize type)
    let value ← eval a
    return truncateTo size value
  | .op .ptr [.op (.cast type) (inner :: _)] => do
    load (← targetOf (Work.ask (·.baseTypeSize type)) (eval inner) true)
  | .op .ptr [a] => do
    load (← targetOf (accessWidth r a) (eval a) false)
  | .op .ref [.ident id] => do
    let ident ← identOf r id
    let address ← Work.ask (·.varAddress ident)
    return address.toInt64
  | .op .sizeOf operands => Work.fail (.unimplementedOperator (r.renderExpr (.op .sizeOf operands)))
  | .op (.custom name) operands =>
    Work.fail (.unimplementedOperator (r.renderExpr (.op (.custom name) operands)))
  | .op o [a] =>
    match o.unary? with
    | some f => do
      let value ← eval a
      return f value
    | none => unimplemented r (.op o [a])
  | .op o [a, b] =>
    match o.binary? with
    | some f => do
      let left ← eval a
      let right ← eval b
      match f left right with
      | some value => return value
      | none => Work.fail (.divisionByZero (r.renderExpr (.op o [a, b])))
    | none => unimplemented r (.op o [a, b])
  | .op o operands => unimplemented r (.op o operands)

/-- The values of so many arguments from left to right; `index` of them came before these. -/
def evalArgs (name : String) : List Expr → Nat → Nat → Run (List Int64)
  | _, _, 0 => return []
  | [], index, _ + 1 =>
    Work.fail (.unimplementedExpression (name ++ ": missing argument " ++ toString index))
  | e :: rest, index, count + 1 => do
    let value ← eval e
    let values ← evalArgs name rest (index + 1) count
    return value :: values

end

/-- Where `*operand` reads or writes. A conversion is looked through: its type tells the width, and
the value there is signed. -/
def derefTarget : Expr → Run DerefTarget
  | .op (.cast type) (inner :: _) => targetOf (Work.ask (·.baseTypeSize type)) (eval r inner) true
  | operand => targetOf (accessWidth r operand) (eval r operand) false

/-! ## Statements made of expressions -/

/-- Executes `lhs = rhs`; the right side is evaluated first. -/
def assign (lhs rhs : Expr) : Run Unit := do
  let value ← eval r rhs
  match lhs.derefOperand? with
  | some pointer =>
    let target ← derefTarget r pointer
    Work.change (·.write target.address value.toUInt64 target.size)
  | none =>
    match lhs.ident? with
    | some id =>
      let ident ← identOf r id
      Work.change (·.setVarValue ident value.toUInt64)
    | none => Work.fail (.unsupportedAssignment (r.renderExpr lhs ++ " = " ++ r.renderExpr rhs))

/-- Executes a call. -/
def call (c : Call) : Run Unit :=
  callWith r c (eval r c.callsite) (fun name => evalArgs r name c.args 0)

/-- The answer of the chain to a call, where one of its simulators recognises it. -/
def simulate (callee : Callee) (args : List Expr) : Run (Option Int64) :=
  simulateWith callee args (evalArgs r callee.name args 0)

end Evaluation

end RoutineEmulator
