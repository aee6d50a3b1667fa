import RoutineEmulator.Routine.Operator
/-!
Expressions of a decompiled routine.

An expression is a tree that its statement owns. `Expr.subexprs` lists a tree in source order; it
is the view through which a routine's identifier references are checked.
-/

namespace RoutineEmulator

/-- The position of an identifier in the identifier table of its routine. -/
structure IdentId where
  val : UInt32
  deriving Repr, DecidableEq, Inhabited

def IdentId.index (id : IdentId) : Nat := id.val.toNat

/-- A call target that the decompiler resolved. -/
structure Callee where
  name : String
  address : Option UInt64 := none
  deriving Repr, DecidableEq, Inhabited

/-- A decompiled expression. -/
inductive Expr where
  /-- An integer constant. -/
  | int (value : Int64)
  /-- An absolute address. -/
  | ptr (address : UInt64)
  | ident (id : IdentId)
  | op (operator : Operator) (operands : List Expr)
  /-- A truth value: 1 or 0. -/
  | predicate (inner : Expr)
  /-- A call; `callsite` is the target as it is written there. -/
  | call (callee : Option Callee) (callsite : Expr) (args : List Expr)
  deriving Inhabited

/-- A call as a statement or an expression holds it. -/
structure Call where
  /-- The target, where the decompiler knows it. -/
  callee : Option Callee := none
  callsite : Expr
  args : List Expr := []
  deriving Inhabited

namespace Call

/-- A call of a known routine. Its call site is the address, or the name where there is none. -/
def direct (name : String) (address : Option UInt64) (args : List Expr) : Call where
  callee := some ⟨name, address⟩
  callsite := match address with
    | some a => .ptr a
    | none => .op (.custom name) []
  args := args

/-- A call of a computed target. -/
def indirect (callsite : Expr) (args : List Expr) : Call where
  callsite := callsite
  args := args

/-- The call as an expression. -/
def toExpr (c : Call) : Expr :=
  .call c.callee c.callsite c.args

end Call

namespace Expr

/-- The identifier, for an expression that is nothing else. -/
def ident? : Expr → Option IdentId
  | ident id => some id
  | _ => none

/-- The operator and its operands, for an operation. -/
def op? : Expr → Option (Operator × List Expr)
  | op o operands => some (o, operands)
  | _ => none

/-- The operands of an operation; none for other expressions. -/
def operands : Expr → List Expr
  | op _ operands => operands
  | _ => []

def isCast : Expr → Bool
  | op o _ => o.isCast
  | _ => false

/-- What a dereference reads through. -/
def derefOperand? : Expr → Option Expr
  | op .ptr (inner :: _) => some inner
  | _ => none

/-- The first identifier among the first three operands. In pointer arithmetic it is the pointer
whose type tells the width of an access. -/
def basePointer? (e : Expr) : Option IdentId :=
  (e.operands.take 3).findSome? ident?

/-- The expression inside any number of conversions around it. -/
def stripCasts : Expr → Expr
  | op (.cast _) (inner :: _) => stripCasts inner
  | e => e

mutual

/-- The expression and all expressions in it, each before its parts, a call site before the
arguments. -/
def subexprs : Expr → List Expr
  | op o operands => op o operands :: subexprsOfAll operands
  | predicate inner => predicate inner :: subexprs inner
  | call callee callsite args =>
    call callee callsite args :: (subexprs callsite ++ subexprsOfAll args)
  | int v => [int v]
  | ptr a => [ptr a]
  | ident id => [ident id]

/-- The expressions in a list of expressions, in order. -/
def subexprsOfAll : List Expr → List Expr
  | [] => []
  | e :: rest => subexprs e ++ subexprsOfAll rest

end

/-- The identifiers of an expression in source order. -/
def idents (e : Expr) : List IdentId :=
  e.subexprs.filterMap ident?

end Expr

/-- The expressions that a call holds: its call site, then its arguments. -/
def Call.subexprs (c : Call) : List Expr :=
  c.callsite.subexprs ++ Expr.subexprsOfAll c.args

end RoutineEmulator
