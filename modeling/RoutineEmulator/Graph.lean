import RoutineEmulator.Fault
import RoutineEmulator.Routine.Rendering
/-!
The flow graph of a routine.

Every statement has a fallthrough successor, none where control leaves the routine, and an `if` or a
loop has its blocks as conditional successors in source order. A block falls through to its first
statement; the last statement of a block goes where control goes after the block.

The graph is described by the edges of one statement after the other, and a table is made of them at
the end. Statements that the body does not contain have no edges.
-/

namespace RoutineEmulator

/-- The edges that leave one statement. -/
structure Successors where
  /-- Where control goes when no condition holds; none leaves the routine. -/
  fallthrough : Option StmtId := none
  /-- The blocks to enter, in source order. -/
  conditional : List StmtId := []
  deriving Repr, DecidableEq, Inhabited

/-- The edge in a slot: slot 0 is the fallthrough, the conditional targets follow. -/
def Successors.slot? (s : Successors) : Nat → Option StmtId
  | 0 => s.fallthrough
  | n + 1 => s.conditional[n]?

/-- The innermost loop around a statement: its header, and where control goes after it. -/
structure LoopContext where
  header : StmtId
  exit : Option StmtId

/-- The flow graph of a routine: its first statement, and the edges of every statement. -/
structure Graph where
  entry : Option StmtId
  edges : Array Successors

namespace Graph

/-- A statement with its edges. -/
abbrev Edges := StmtId × Successors

/-! ## Building -/

/-- The edges of a block that a loop or a branch owns: its first statement, or `ifEmpty`. -/
def enterBlock (r : Draft) (block : StmtId) (ifEmpty : Option StmtId) :
    Except EmulationError Edges :=
  match r.stmt? block with
  | some (.block stmts) => .ok (block, { fallthrough := stmts.head? <|> ifEmpty })
  | _ => .error (.unimplementedStatement (r.renderStmt block))

/-- The fault of a `break` or `continue` that no loop encloses. -/
def outsideLoop (r : Draft) (id : StmtId) : EmulationError :=
  .unimplementedStatement (r.renderStmt id ++ " (outside of a loop)")

/-- How the statements inside a block are wired: the block, where control goes after it, and the
innermost loop around it. -/
abbrev Descent :=
  StmtId → Option StmtId → Option LoopContext → Except EmulationError (List Edges)

/-- The edges of the arms of an `if`, after which control goes to `next`. -/
def wireArms (r : Draft) (descend : Descent) (next : Option StmtId) (inner : Option LoopContext) :
    List StmtId → Except EmulationError (List Edges)
  | [] => .ok []
  | arm :: rest => do
    let entered ← enterBlock r arm next
    let inside ← descend arm next inner
    let others ← wireArms r descend next inner rest
    return entered :: inside ++ others

/-- The edges of a statement and of all statements in it; `next` is where control goes after it. -/
def wireStmt (r : Draft) (descend : Descent) (id : StmtId) (next : Option StmtId)
    (inner : Option LoopContext) : Except EmulationError (List Edges) :=
  match r.stmt? id with
  | some (.goto target) | some (.breakLoop (some target)) | some (.continueLoop (some target)) =>
    .ok [(id, { fallthrough := some target })]
  | some (.ret _) | some (.jumpFar _) => .ok [(id, {})]
  | some (.breakLoop none) =>
    match inner with
    | some loop => .ok [(id, { fallthrough := loop.exit })]
    | none => .error (outsideLoop r id)
  | some (.continueLoop none) =>
    match inner with
    | some loop => .ok [(id, { fallthrough := some loop.header })]
    | none => .error (outsideLoop r id)
  | some (.loop _ _ body) => do
    let entered ← enterBlock r body (some id)
    let inside ← descend body (some id) (some { header := id, exit := next })
    return (id, { fallthrough := next, conditional := [body] }) :: entered :: inside
  | some (.ifElse branches default) => do
    let arms := branches.map (·.block) ++ default.toList
    let inside ← wireArms r descend next inner arms
    return (id, { fallthrough := next, conditional := arms }) :: inside
  | some (.block stmts) => do
    let inside ← descend id next inner
    return (id, { fallthrough := stmts.head? <|> next }) :: inside
  | some (.switch ..) => .error (.unimplementedStatement (r.renderStmt id))
  | some (.assign ..) | some (.label _) | some (.call _) | some (.decl _) =>
    .ok [(id, { fallthrough := next })]
  | none => .ok []

/-- The edges of the statements of a block, after which control goes to `follow`. -/
def wireStmts (r : Draft) (descend : Descent) (follow : Option StmtId)
    (inner : Option LoopContext) : List StmtId → Except EmulationError (List Edges)
  | [] => .ok []
  | id :: rest => do
    let first ← wireStmt r descend id (rest.head? <|> follow) inner
    let others ← wireStmts r descend follow inner rest
    return first ++ others

/-- The edges of the statements of a block, nested at most so deep. -/
def wireBlock (r : Draft) : Nat → Descent
  | 0, _, _, _ => .ok []
  | depth + 1, block, follow, inner =>
    match r.stmt? block with
    | some (.block stmts) => wireStmts r (wireBlock r depth) follow inner stmts
    | _ => .ok []

/-- The edges of every statement that the body contains, the body included. No nesting is deeper
than the number of statements. -/
def wiring (r : Draft) : Except EmulationError (List Edges) := do
  let inside ← wireBlock r r.size r.body none none
  return (r.body, { fallthrough := r.entry? }) :: inside

/-- The flow graph of a routine. A `switch` has none, and neither has a `break` or `continue` that
has no label and no loop around it. -/
def build (r : Draft) : Except EmulationError Graph := do
  let edges ← wiring r
  return {
    entry := r.entry?
    edges := edges.foldl (fun table (id, successors) => table.setIfInBounds id.index successors)
      (Array.replicate r.size {}) }

/-! ## Queries -/

/-- The edges of a statement. -/
def successors? (g : Graph) (id : StmtId) : Option Successors :=
  g.edges[id.index]?

/-- The fallthrough successor. -/
def next (g : Graph) (id : StmtId) : Option StmtId :=
  (g.successors? id).bind (·.fallthrough)

/-- The conditional successor with this number. -/
def nthNext (g : Graph) (id : StmtId) (n : Nat) : Option StmtId :=
  (g.successors? id).bind (·.conditional[n]?)

/-- The number of statements. -/
def size (g : Graph) : Nat :=
  g.edges.size

/-! ## Text -/

/-- The text of a statement's number. -/
def numbered (id : StmtId) : String :=
  "#" ++ toString id.index

/-- The line for one statement; none for one without edges. -/
def line (n : Nat) (s : Successors) : String :=
  if s.fallthrough.isNone && s.conditional.isEmpty then ""
  else
    "#" ++ toString n ++ " -> " ++ s.fallthrough.elim "exit" numbered
      ++ (if s.conditional.isEmpty then ""
          else " | " ++ ", ".intercalate (s.conditional.map numbered))
      ++ "\n"

/-- The graph, one line for each statement with edges. -/
def render (g : Graph) : String :=
  "entry: " ++ g.entry.elim "<none>" numbered ++ "\n"
    ++ String.join (g.edges.toList.zipIdx.map fun (s, n) => line n s)

end Graph

end RoutineEmulator
