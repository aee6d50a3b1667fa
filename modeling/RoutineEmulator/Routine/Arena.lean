import RoutineEmulator.Routine.Stmt
import Std.Data.HashSet
/-!
Routines: an arena of statements, a table of identifiers and a body.

A `Draft` is a routine as it is written down. `Draft.check` refuses one whose references do not fit
together, and a `Routine` is a draft that passes: every reference is in range, bodies are blocks,
jump targets are labels, and no statement is nested in two places.
-/

namespace RoutineEmulator

/-- The number of a machine register, or of one of the engine's own. -/
abbrev RegisterId := Int32

/-- Where the value of an identifier lives. -/
inductive StorageClass where
  /-- On the stack, at an offset from the frame base. -/
  | local
  /-- At an absolute address. -/
  | global
  /-- In a register. -/
  | register
  /-- In the register that passes a parameter. -/
  | parameter
  deriving Repr, DecidableEq, Inhabited

/-- A declared identifier. -/
structure Identifier where
  /-- The register, for the two classes that live in one. -/
  id : RegisterId := 0
  name : String
  storage : StorageClass
  /-- The type signature, for instance `int` or `char*`. -/
  type : String
  /-- The frame offset of a local, the address of a global. -/
  address : Int64 := 0
  deriving Repr, DecidableEq, Inhabited

/-- A routine as written down, its references unchecked. -/
structure Draft where
  name : String
  address : UInt64
  stmts : Array Stmt
  idents : Array Identifier := #[]
  body : StmtId

/-- What is wrong with the references of a draft. -/
inductive ArenaFault where
  /-- A statement reference outside the arena. -/
  | danglingStatement (id : StmtId)
  /-- An identifier reference outside the table. -/
  | danglingIdentifier (id : IdentId)
  /-- The body of the routine is not a block. -/
  | bodyNotBlock (id : StmtId)
  /-- A statement that is nested in more than one place. -/
  | sharedStatement (id : StmtId)
  /-- A jump target that is not a label. -/
  | notALabel (id : StmtId)
  /-- A branch or loop body that is not a block. -/
  | notABlock (id : StmtId)
  deriving Repr, DecidableEq

/-- The wording of a fault. -/
def ArenaFault.message : ArenaFault → String
  | danglingStatement id => "statement #" ++ toString id.index ++ " is out of range"
  | danglingIdentifier id => "identifier #" ++ toString id.index ++ " is out of range"
  | bodyNotBlock id => "routine body #" ++ toString id.index ++ " is not a block"
  | sharedStatement id => "statement #" ++ toString id.index ++ " appears in more than one block"
  | notALabel id =>
    "statement #" ++ toString id.index ++ " is used as a jump target but is not a label"
  | notABlock id => "statement #" ++ toString id.index ++ " is used as a body but is not a block"

namespace Draft

/-- The statement at a position. -/
def stmt? (r : Draft) (id : StmtId) : Option Stmt :=
  r.stmts[id.index]?

/-- The identifier at a position. -/
def ident? (r : Draft) (id : IdentId) : Option Identifier :=
  r.idents[id.index]?

def contains (r : Draft) (id : StmtId) : Bool :=
  decide (id.index < r.stmts.size)

/-- The number of statements. -/
def size (r : Draft) : Nat :=
  r.stmts.size

/-- The statements of the body block. -/
def bodyStmts (r : Draft) : List StmtId :=
  match r.stmt? r.body with
  | some (.block stmts) => stmts
  | _ => []

/-- The first statement of the body. -/
def entry? (r : Draft) : Option StmtId :=
  r.bodyStmts.head?

/-- The statements with their positions. -/
def enumerated (r : Draft) : List (StmtId × Stmt) :=
  r.stmts.toList.zipIdx.map fun (s, n) => (.ofIndex n, s)

/-- The first identifier of this name. -/
def findIdent? (r : Draft) (name : String) : Option IdentId :=
  (r.idents.toList.findIdx? (·.name == name)).map fun n => ⟨UInt32.ofNat n⟩

/-- The first label of this name. -/
def findLabel? (r : Draft) (name : String) : Option StmtId :=
  (r.stmts.toList.findIdx? fun
    | .label l => l == name
    | _ => false).map .ofIndex

/-! ## Checking references -/

/-- The reference names a block. -/
def checkBlock (r : Draft) (id : StmtId) : Except ArenaFault Unit :=
  match r.stmt? id with
  | none => .error (.danglingStatement id)
  | some s =>
    if s.isBlock then .ok ()
    else if id = r.body then .error (.bodyNotBlock id)
    else .error (.notABlock id)

/-- The reference names a label. -/
def checkLabel (r : Draft) (id : StmtId) : Except ArenaFault Unit :=
  match r.stmt? id with
  | none => .error (.danglingStatement id)
  | some s => if s.isLabel then .ok () else .error (.notALabel id)

/-- The reference names an identifier. -/
def checkIdent (r : Draft) (id : IdentId) : Except ArenaFault Unit :=
  if id.index < r.idents.size then .ok () else .error (.danglingIdentifier id)

/-- Gives a statement its place, where none of those in `placed` is it. -/
def place (r : Draft) (placed : Std.HashSet StmtId) (child : StmtId) :
    Except ArenaFault (Std.HashSet StmtId) :=
  if !r.contains child then .error (.danglingStatement child)
  else if placed.contains child then .error (.sharedStatement child)
  else .ok (placed.insert child)

/-- The identifiers that a statement refers to, in its expressions and as a declaration. -/
def identsOf (s : Stmt) : List IdentId :=
  s.exprs.filterMap Expr.ident? ++ match s with
    | .decl ident => [ident]
    | _ => []

/-- Checks the references of one statement; its children take their places. -/
def checkStmt (r : Draft) (placed : Std.HashSet StmtId) (s : Stmt) :
    Except ArenaFault (Std.HashSet StmtId) := do
  let placed ← s.children.foldlM r.place placed
  s.bodies.forM r.checkBlock
  s.jumpTargets.forM r.checkLabel
  (identsOf s).forM r.checkIdent
  return placed

/-- Checks the body, then every statement in arena order. The body has its place from the start. -/
def check (r : Draft) : Except ArenaFault Unit := do
  r.checkBlock r.body
  let _ ← r.stmts.toList.foldlM r.checkStmt {r.body}

end Draft

/-- A routine whose references fit together. -/
structure Routine extends Draft where
  valid : toDraft.check = .ok ()

/-- The routine that a draft describes, or the first fault in it. -/
def Routine.ofDraft (draft : Draft) : Except ArenaFault Routine :=
  match h : draft.check with
  | .ok () => .ok { draft with valid := h }
  | .error fault => .error fault

end RoutineEmulator
