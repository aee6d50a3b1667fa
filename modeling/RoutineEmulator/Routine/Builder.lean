import RoutineEmulator.Routine.Arena
/-!
Building a routine bottom-up.

Statements are created detached and placed into blocks afterwards, so a label can exist before the
jump that targets it. Each operation that takes the statements of a body wraps them in a block of
its own.
-/

namespace RoutineEmulator

/-- A routine under construction. -/
structure Builder where
  name : String
  address : UInt64
  stmts : Array Stmt := #[]
  idents : Array Identifier := #[]

namespace Builder

/-! ## Identifiers -/

/-- Declares an identifier. -/
def ident (i : Identifier) : StateM Builder IdentId := do
  let b ← get
  set { b with idents := b.idents.push i }
  return ⟨UInt32.ofNat b.idents.size⟩

/-- Declares a stack variable at an offset from the frame base. -/
def localVar (name type : String) (offset : Int64) : StateM Builder IdentId :=
  ident { name, storage := .local, type, address := offset }

/-- Declares a variable at an absolute address. -/
def globalVar (name type : String) (address : UInt64) : StateM Builder IdentId :=
  ident { name, storage := .global, type, address := address.toInt64 }

/-- Declares a register variable. -/
def registerVar (name type : String) (id : RegisterId) : StateM Builder IdentId :=
  ident { id, name, storage := .register, type }

/-- Declares a parameter passed in a register. -/
def parameterVar (name type : String) (id : RegisterId) : StateM Builder IdentId :=
  ident { id, name, storage := .parameter, type }

/-! ## Statements -/

/-- Adds a detached statement. -/
def push (s : Stmt) : StateM Builder StmtId := do
  let b ← get
  set { b with stmts := b.stmts.push s }
  return .ofIndex b.stmts.size

/-- `lhs = rhs` -/
def assign (lhs rhs : Expr) : StateM Builder StmtId :=
  push (.assign lhs rhs none false)

/-- `type name = rhs` -/
def declare (ident : IdentId) (rhs : Expr) : StateM Builder StmtId :=
  push (.assign (.ident ident) rhs none true)

/-- `lhs op= rhs` -/
def compoundAssign (o : Operator) (lhs rhs : Expr) : StateM Builder StmtId :=
  push (.assign lhs rhs (some o) false)

/-- `type name;` -/
def decl (ident : IdentId) : StateM Builder StmtId :=
  push (.decl ident)

def block (stmts : List StmtId) : StateM Builder StmtId :=
  push (.block stmts)

/-- The block of a body that may be missing. -/
def blockOption : Option (List StmtId) → StateM Builder (Option StmtId)
  | some stmts => some <$> block stmts
  | none => return none

/-- `if (p) {..} else if (q) {..} else {..}` -/
def ifElse (branches : List (Expr × List StmtId)) (default : Option (List StmtId)) :
    StateM Builder StmtId := do
  let branches ← branches.mapM fun (predicate, body) => do
    return { predicate, block := ← block body }
  let default ← blockOption default
  push (.ifElse branches default)

/-- `if (p) {..}` -/
def ifThen (predicate : Expr) (body : List StmtId) : StateM Builder StmtId :=
  ifElse [(predicate, body)] none

def loop (kind : LoopKind) (predicate : Expr) (body : List StmtId) : StateM Builder StmtId := do
  let body ← block body
  push (.loop kind predicate body)

def label (name : String) : StateM Builder StmtId :=
  push (.label name)

def goto (target : StmtId) : StateM Builder StmtId :=
  push (.goto target)

def ret (value : Option Expr) : StateM Builder StmtId :=
  push (.ret value)

def jumpFar (target : Expr) : StateM Builder StmtId :=
  push (.jumpFar target)

def call (c : Call) : StateM Builder StmtId :=
  push (.call c)

/-- Leaves the innermost loop, or goes to a label. -/
def breakLoop (target : Option StmtId) : StateM Builder StmtId :=
  push (.breakLoop target)

/-- Tests the innermost loop again, or goes to a label. -/
def continueLoop (target : Option StmtId) : StateM Builder StmtId :=
  push (.continueLoop target)

def switch (value : Expr) (cases : List (List Int64 × List StmtId))
    (default : Option (List StmtId)) : StateM Builder StmtId := do
  let cases ← cases.mapM fun (values, body) => do
    return { values, block := ← block body }
  let default ← blockOption default
  push (.switch value cases default)

/-! ## Finishing -/

/-- Wraps the statements into the body block of the routine and checks its references. -/
def finish (b : Builder) (body : List StmtId) : Except ArenaFault Routine :=
  let (id, b) := (block body).run b
  Routine.ofDraft { name := b.name, address := b.address, stmts := b.stmts, idents := b.idents,
                    body := id }

end Builder

end RoutineEmulator
