import RoutineEmulator.Routine.Expr
/-!
Statements of a decompiled routine.

Statements live in the arena of their routine and refer to each other by position, so that a
statement has an identity that the flow graph and the trace can name.
-/

namespace RoutineEmulator

/-- The position of a statement in the arena of its routine. -/
structure StmtId where
  val : UInt32
  deriving Repr, DecidableEq, Hashable, Inhabited

def StmtId.index (id : StmtId) : Nat := id.val.toNat

/-- The id of the statement at a position. -/
def StmtId.ofIndex (n : Nat) : StmtId := ⟨UInt32.ofNat n⟩

/-- The spelling of a loop. All loops test before each round. -/
inductive LoopKind where
  | while
  | doWhile
  | for
  deriving Repr, DecidableEq, Inhabited

/-- One `if` or `else if` arm. -/
structure Branch where
  predicate : Expr
  /-- The block that runs when the predicate holds. -/
  block : StmtId
  deriving Inhabited

/-- One arm of a switch. -/
structure SwitchCase where
  values : List Int64
  block : StmtId
  deriving Inhabited

/-- A statement; nested statements are given by position. -/
inductive Stmt where
  /-- An assignment. `compound` is the operator of `lhs op= rhs`; `declare` tells that the
  assignment declares its left side. -/
  | assign (lhs rhs : Expr) (compound : Option Operator) (declare : Bool)
  | ifElse (branches : List Branch) (default : Option StmtId)
  | loop (kind : LoopKind) (predicate : Expr) (body : StmtId)
  | goto (label : StmtId)
  | label (name : String)
  | ret (value : Option Expr)
  /-- A transfer to a computed address outside the routine. -/
  | jumpFar (target : Expr)
  | call (call : Call)
  /-- Leaves the innermost loop, or goes to a label. -/
  | breakLoop (label : Option StmtId)
  /-- Tests the innermost loop again, or goes to a label. -/
  | continueLoop (label : Option StmtId)
  | decl (ident : IdentId)
  | block (stmts : List StmtId)
  | switch (value : Expr) (cases : List SwitchCase) (default : Option StmtId)
  deriving Inhabited

namespace Stmt

/-- The blocks that a compound statement owns, in source order. -/
def bodies : Stmt → List StmtId
  | ifElse branches default => branches.map (·.block) ++ default.toList
  | loop _ _ body => [body]
  | switch _ cases default => cases.map (·.block) ++ default.toList
  | _ => []

/-- The statements nested directly in this one. -/
def children : Stmt → List StmtId
  | block stmts => stmts
  | s => s.bodies

/-- The labels that this statement may jump to. -/
def jumpTargets : Stmt → List StmtId
  | goto target => [target]
  | breakLoop (some target) => [target]
  | continueLoop (some target) => [target]
  | _ => []

def isLoop : Stmt → Bool
  | loop .. => true
  | _ => false

def isBlock : Stmt → Bool
  | block _ => true
  | _ => false

def isLabel : Stmt → Bool
  | label _ => true
  | _ => false

/-- The expressions that this statement holds at any depth, in source order. -/
def exprs : Stmt → List Expr
  | assign lhs rhs _ _ => lhs.subexprs ++ rhs.subexprs
  | ifElse branches _ => branches.flatMap (·.predicate.subexprs)
  | loop _ predicate _ => predicate.subexprs
  | ret (some value) => value.subexprs
  | jumpFar target => target.subexprs
  | call c => c.subexprs
  | switch value _ _ => value.subexprs
  | _ => []

end Stmt

end RoutineEmulator
