import RoutineEmulator.Emulation.Emulator
import RoutineEmulator.Proofs.Machine.Faults
import RoutineEmulator.Proofs.Routine.Mentions
/-!
Properties that a visit inherits from its parts.

A visit is a sequence of questions to the machine, changes of it, answers of the chain and lines for
the log. A property of computations that each of these parts has, and that a sequence has when its
parts have it, is one of every evaluation, of every statement that is executed and of every visit.
The induction over expressions stands here once. An expression asks for the values of the variables
that it mentions and of no others, and one without calls asks nothing of the chain, so no more than
this is needed of a property that evaluations are to have.
-/

namespace RoutineEmulator

/-! ## Expressions without calls -/

namespace Expr

def isCall : Expr → Bool
  | call .. => true
  | _ => false

/-- No call stands in the expression, at any depth. -/
def CallFree (e : Expr) : Prop :=
  ∀ inner ∈ e.subexprs, inner.isCall = false

instance (e : Expr) : Decidable e.CallFree :=
  inferInstanceAs (Decidable (∀ inner ∈ e.subexprs, inner.isCall = false))

theorem forall_mem_subexprsOfAll_iff {P : Expr → Prop} {es : List Expr} :
    (∀ inner ∈ subexprsOfAll es, P inner) ↔ ∀ e ∈ es, ∀ inner ∈ e.subexprs, P inner := by
  induction es with
  | nil => simp [subexprsOfAll]
  | cons e rest ih =>
      rw [subexprsOfAll, List.forall_mem_append, ih, List.forall_mem_cons]

/-- An operator adds no calls to those of its operands. -/
theorem callFree_op_iff {o : Operator} {operands : List Expr} :
    (op o operands).CallFree ↔ ∀ e ∈ operands, e.CallFree := by
  rw [CallFree, subexprs, List.forall_mem_cons, forall_mem_subexprsOfAll_iff]
  exact and_iff_right rfl

/-- A test has the calls of the expression in it. -/
theorem callFree_predicate_iff {inner : Expr} : (predicate inner).CallFree ↔ inner.CallFree := by
  rw [CallFree, subexprs, List.forall_mem_cons]
  exact and_iff_right rfl

theorem not_callFree_call {callee : Option Callee} {callsite : Expr} {args : List Expr} :
    ¬ (call callee callsite args).CallFree := by
  intro h
  cases h _ (by rw [subexprs]; exact List.mem_cons_self)

end Expr

namespace Evaluation

/-! ## Parts of a visit -/

/-- A property of computations on a session. -/
abbrev Trait := ∀ ⦃α : Type⦄, Run α → Prop

/-- What reads only, fails or goes on in sequence has the trait. -/
structure Reads (P : Trait) : Prop where
  pure : ∀ {α : Type} (a : α), P (pure a : Run α)
  fail : ∀ {α : Type} {e : EmulationError}, (∀ limit, e ≠ .stepLimitExceeded limit) →
    P (Work.fail e : Run α)
  bind : ∀ {α β : Type} {work : Run α} {next : α → Run β}, P work → (∀ a, P (next a)) →
    P (work >>= next)
  machine : P Work.machine
  ask : ∀ {α : Type} {question : Machine → Except EmulationError α},
    (∀ s, SparesLimit (question s)) → P (Work.ask question)

/-- What computes without the value of a variable has the trait: its questions and its faults are
not of an access to memory. -/
structure Computes (P : Trait) : Prop where
  pure : ∀ {α : Type} (a : α), P (pure a : Run α)
  fail : ∀ {α : Type} {e : EmulationError}, (∀ limit, e ≠ .stepLimitExceeded limit) →
    e.ofAccess = false → P (Work.fail e : Run α)
  bind : ∀ {α β : Type} {work : Run α} {next : α → Run β}, P work → (∀ a, P (next a)) →
    P (work >>= next)
  machine : P Work.machine
  ask : ∀ {α : Type} {question : Machine → Except EmulationError α},
    (∀ s, SparesMemory (question s)) → P (Work.ask question)

/-- Where the questions that spare the limit have the trait, so have those that spare memory. -/
theorem Reads.computes {P : Trait} (h : Reads P) : Computes P where
  pure := h.pure
  fail hlimit _ := h.fail hlimit
  bind := h.bind
  machine := h.machine
  ask hspares := h.ask fun s => (hspares s).sparesLimit

/-- What the chain answers has the trait, and so has setting the registers that calls set. -/
structure Answers (P : Trait) : Prop where
  chain : ∀ (callee : Callee) (args : List Expr) {evalArgs : Nat → Run (List Int64)},
    (∀ count, P (evalArgs count)) → P (simulateWith callee args evalArgs)
  result : ∀ value, P (Work.setRegister Register.rax value)
  nextHandler : ∀ value, P (Work.setRegister Register.nextHandler value)

section

variable (r : Draft) {P : Trait}

theorem Computes.unimplemented (h : Computes P) {α : Type} (e : Expr) :
    P (unimplemented r e : Run α) :=
  h.fail (by simp) rfl

/-- Looking up an identifier has the trait, found or not. -/
theorem Computes.identOf (h : Computes P) (id : IdentId) : P (identOf r id) := by
  unfold Evaluation.identOf
  split
  · exact h.pure _
  · exact h.fail (by simp) rfl

/-- What may ask for anything may ask for the value of a variable. -/
theorem Reads.readIdent (h : Reads P) (id : IdentId) : P (readIdent r id) :=
  h.bind (h.computes.identOf r id) fun ident =>
    h.bind (h.ask fun s => s.sparesLimit_varValue ident) fun _ => h.pure _

theorem Computes.baseTypeSize (h : Computes P) (type : String) :
    P (Work.ask (·.baseTypeSize type) : Run Nat) :=
  h.ask fun s => s.sparesMemory_baseTypeSize type

theorem Computes.defaultWidth (h : Computes P) (operand : Expr) : P (defaultWidth r operand) := by
  refine h.bind h.machine fun s => ?_
  by_cases hsize : s.pointerSize = 0
  · rw [if_pos hsize]
    exact h.fail (by simp) rfl
  · rw [if_neg hsize]
    exact h.pure _

/-- The width of a dereference has the trait, wherever it comes from: the type of a cast, the type
of a variable, or the width of a pointer. -/
theorem Computes.accessWidth (h : Computes P) (operand : Expr) : P (accessWidth r operand) := by
  unfold Evaluation.accessWidth
  split
  · exact h.bind (h.identOf r _) fun _ => h.baseTypeSize _
  · exact h.unimplemented r _
  · split
    · exact h.bind (h.identOf r _) fun _ => h.baseTypeSize _
    · exact h.defaultWidth r _
  · exact h.defaultWidth r _
  · exact h.defaultWidth r _
  · exact h.fail (by simp) rfl
  · exact h.fail (by simp) rfl

/-- A target has the trait if its width and its pointer have it. -/
theorem Computes.targetOf (h : Computes P) {width : Run Nat} {pointer : Run Int64}
    (hwidth : P width) (hpointer : P pointer) (signed : Bool) :
    P (targetOf width pointer signed) :=
  h.bind hwidth fun _ => h.bind hpointer fun _ => h.pure _

/-- Loading from a target has the trait without any question about memory: what cannot be read is
answered with zero. -/
theorem Computes.load (h : Computes P) (target : DerefTarget) : P (load target) :=
  h.bind h.machine fun _ => h.pure _

/-! ## Calls -/

/-- A call has the trait if its callsite and its arguments have it. -/
theorem Answers.callWith (ha : Answers P) (h : Computes P) (c : Call) {evalSite : Run Int64}
    {evalArgs : String → Nat → Run (List Int64)} (hsite : P evalSite)
    (hargs : ∀ name count, P (evalArgs name count)) : P (callWith r c evalSite evalArgs) := by
  unfold Evaluation.callWith
  split
  · refine h.bind (ha.chain _ _ (hargs _)) fun answer => ?_
    split
    · exact ha.result _
    · exact h.fail (by simp) rfl
  · exact h.bind hsite fun _ => ha.nextHandler _

/-- The value of a call is looked up in a register. -/
theorem Computes.callResult (h : Computes P) : P callResult :=
  h.bind h.machine fun _ => h.pure _

/-! ## Expressions -/

/-- What the evaluation of an expression asks for has the trait: the values of the variables that it
mentions, and the answers to its calls, if it has any. -/
structure Grants (P : Trait) (e : Expr) : Prop where
  reads : ∀ id, e.Mentions id → P (readIdent r id)
  calls : e.CallFree ∨ Answers P

namespace Grants

variable {r}

/-- An operand is granted what its operator is. -/
theorem operand {o : Operator} {operands : List Expr} {e : Expr} (h : Grants r P (.op o operands))
    (he : e ∈ operands) : Grants r P e where
  reads id hid := h.reads id (.operand he hid)
  calls := h.calls.imp_left fun hfree => Expr.callFree_op_iff.mp hfree e he

theorem inner {e : Expr} (h : Grants r P (.predicate e)) : Grants r P e where
  reads id hid := h.reads id (.predicate hid)
  calls := h.calls.imp_left Expr.callFree_predicate_iff.mp

variable {callee : Option Callee} {site : Expr} {args : List Expr}

/-- Where a call is granted, so are the answers of the chain. -/
theorem answers (h : Grants r P (.call callee site args)) : Answers P :=
  h.calls.resolve_left Expr.not_callFree_call

/-- A callsite is granted what its call is. -/
theorem callsite (h : Grants r P (.call callee site args)) : Grants r P site where
  reads id hid := h.reads id (.callsite hid)
  calls := .inr h.answers

/-- So is an argument. -/
theorem argument (h : Grants r P (.call callee site args)) {e : Expr} (he : e ∈ args) :
    Grants r P e where
  reads id hid := h.reads id (.argument he hid)
  calls := .inr h.answers

end Grants

mutual

/-- **Evaluations inherit.** A trait of what computes is one of the evaluation of every expression
that is granted the rest: its variables, and the answers to its calls. -/
theorem Computes.eval (h : Computes P) : ∀ e : Expr, Grants r P e → P (eval r e) := by
  intro e hgrants
  unfold Evaluation.eval
  split
  · exact h.pure _
  · exact h.pure _
  · exact hgrants.reads _ .ident
  · exact h.bind (h.eval _ hgrants.inner) fun _ => h.pure _
  · exact h.bind (hgrants.answers.callWith r h _ (h.eval _ hgrants.callsite) fun name count =>
      h.evalArgs name _ 0 count fun _ he => hgrants.argument he) fun _ => h.callResult
  · refine h.bind (h.eval _ (hgrants.operand (by simp))) fun _ => ?_
    split
    · exact h.pure 0
    · exact h.bind (h.eval _ (hgrants.operand (by simp))) fun _ => h.pure _
  · refine h.bind (h.eval _ (hgrants.operand (by simp))) fun _ => ?_
    split
    · exact h.pure 1
    · exact h.bind (h.eval _ (hgrants.operand (by simp))) fun _ => h.pure _
  · refine h.bind (h.eval _ (hgrants.operand (by simp))) fun _ => ?_
    split
    · exact h.eval _ (hgrants.operand (by simp))
    · exact h.eval _ (hgrants.operand (by simp))
  · exact h.bind (h.ask fun s => s.sparesMemory_typeSize _) fun _ =>
      h.bind (h.eval _ (hgrants.operand (by simp))) fun _ => h.pure _
  · rename_i type inner rest
    have hcast : Grants r P (.op (.cast type) (inner :: rest)) := hgrants.operand (by simp)
    exact h.bind (h.targetOf (h.baseTypeSize _) (h.eval _ (hcast.operand (by simp))) true)
      fun _ => h.load _
  · exact h.bind (h.targetOf (h.accessWidth r _) (h.eval _ (hgrants.operand (by simp))) false)
      fun _ => h.load _
  · exact h.bind (h.identOf r _) fun ident =>
      h.bind (h.ask fun s => s.sparesMemory_varAddress ident) fun _ => h.pure _
  · exact h.fail (by simp) rfl
  · exact h.fail (by simp) rfl
  · split
    · exact h.bind (h.eval _ (hgrants.operand (by simp))) fun _ => h.pure _
    · exact h.unimplemented r _
  · split
    · refine h.bind (h.eval _ (hgrants.operand (by simp))) fun _ =>
        h.bind (h.eval _ (hgrants.operand (by simp))) fun _ => ?_
      split
      · exact h.pure _
      · exact h.fail (by simp) rfl
    · exact h.unimplemented r _
  · exact h.unimplemented r _

/-- The same for the arguments that a simulator asks for. -/
theorem Computes.evalArgs (h : Computes P) (name : String) :
    ∀ (args : List Expr) (index count : Nat), (∀ e ∈ args, Grants r P e) →
      P (evalArgs r name args index count)
  | _, _, 0, _ => by
      unfold Evaluation.evalArgs
      exact h.pure _
  | [], _, _ + 1, _ => h.fail (by simp) rfl
  | e :: rest, index, count + 1, hgrants =>
      h.bind (h.eval e (hgrants e List.mem_cons_self)) fun _ =>
        h.bind (h.evalArgs name rest (index + 1) count fun e' he' =>
          hgrants e' (List.mem_cons_of_mem e he')) fun _ => h.pure _

end

/-- The same for the target of a dereference. -/
theorem Computes.derefTarget (h : Computes P) {operand : Expr} (hgrants : Grants r P operand) :
    P (derefTarget r operand) := by
  unfold Evaluation.derefTarget
  split
  · exact h.targetOf (h.baseTypeSize _) (h.eval r _ (hgrants.operand List.mem_cons_self)) true
  · exact h.targetOf (h.accessWidth r _) (h.eval r _ hgrants) false

/-! ## Evaluations that read any variable -/

theorem Reads.grants (h : Reads P) {e : Expr} (hcalls : e.CallFree ∨ Answers P) : Grants r P e :=
  ⟨fun id _ => h.readIdent r id, hcalls⟩

/-- A trait of what reads is one of the evaluation of every expression, if the expression has no
calls or the answers to them have the trait. -/
theorem Reads.eval (h : Reads P) (e : Expr) (hcalls : e.CallFree ∨ Answers P) : P (eval r e) :=
  h.computes.eval r e (h.grants r hcalls)

theorem Reads.evalArgs (h : Reads P) (name : String) (args : List Expr) (index count : Nat)
    (hcalls : ∀ e ∈ args, e.CallFree ∨ Answers P) : P (evalArgs r name args index count) :=
  h.computes.evalArgs r name args index count fun e he => h.grants r (hcalls e he)

theorem Reads.derefTarget (h : Reads P) (operand : Expr) (hcalls : operand.CallFree ∨ Answers P) :
    P (derefTarget r operand) :=
  h.computes.derefTarget r (h.grants r hcalls)

/-- A trait of what reads and of what answers is one of every call. -/
theorem Answers.call (ha : Answers P) (h : Reads P) (c : Call) : P (call r c) :=
  ha.callWith r h.computes c (h.eval r _ (.inr ha)) fun _ _ =>
    h.evalArgs r _ _ _ _ fun _ _ => .inr ha

end

end Evaluation

/-! ## Statements -/

/-- The variable is the bare left side of an assignment of the routine. -/
def Draft.Assigns (r : Draft) (var : Identifier) : Prop :=
  ∃ id lhs rhs compound declare ident, r.stmt? id = some (.assign lhs rhs compound declare) ∧
    lhs.ident? = some ident ∧ r.ident? ident = some var

namespace Emulator

open Evaluation

/-- Assignments to memory have the trait, and so have those to the variables that the routine
assigns. -/
structure Stores (r : Draft) (P : Trait) : Prop where
  write : ∀ address value size, P (Work.change (·.write address value size))
  assign : ∀ var value, r.Assigns var → P (Work.change (·.setVarValue var value))

/-- What the simulators do before a statement has the trait, tests of branches apart. -/
structure Prepares (P : Trait) : Prop where
  own : P Work.own
  say : ∀ line, P (Work.say line)
  settle : ∀ place, P (do Work.setOwn ((← Work.own).modify place Simulator.settlePops))

section

variable {r : Draft} {P : Trait}

/-- An assignment has the trait: it stores to the target of a dereference, or to a variable that the
routine assigns. -/
theorem Stores.assignment (hs : Stores r P) (h : Reads P) (ha : Answers P) {id : StmtId}
    {lhs rhs : Expr} {compound : Option Operator} {declare : Bool}
    (hstmt : r.stmt? id = some (.assign lhs rhs compound declare)) :
    P (Evaluation.assign r lhs rhs) := by
  refine h.bind (h.eval r rhs (.inr ha)) fun value => ?_
  split
  · exact h.bind (h.derefTarget r _ (.inr ha)) fun target =>
      hs.write target.address _ target.size
  · split
    · rename_i ident hident
      unfold identOf
      -- what is stored behind the look-up goes to the variable that was found, and to no other one
      cases hvar : r.ident? ident with
      | some var =>
          exact hs.assign var _ ⟨id, lhs, rhs, compound, declare, ident, hstmt, hident, hvar⟩
      | none => exact h.fail (by simp)
    · exact h.fail (by simp)

/-- Choosing a branch evaluates the tests up to the first that holds, and nothing else. -/
theorem inherits_chooseBranch (h : Reads P) {branches : List Branch}
    (hcalls : ∀ branch ∈ branches, branch.predicate.CallFree ∨ Answers P) (n : Nat) :
    P (chooseBranch r branches n) := by
  induction branches generalizing n with
  | nil => exact h.pure none
  | cons branch rest ih =>
      rw [List.forall_mem_cons] at hcalls
      refine h.bind (h.eval r branch.predicate hcalls.1) fun value => ?_
      split
      · exact h.pure _
      · exact ih hcalls.2 (n + 1)

/-- **Statements inherit.** A trait of the parts is one of the execution of every statement of the
routine. -/
theorem inherits_execute (h : Reads P) (ha : Answers P) (hs : Stores r P) (g : Graph) {id : StmtId}
    {s : Stmt} (hstmt : r.stmt? id = some s) : P (execute r g id s) := by
  cases s with
  | goto | label | block | decl | breakLoop | continueLoop => exact h.pure _
  | ret value =>
      cases value with
      | none => exact h.pure _
      | some value =>
          exact h.bind (h.eval r value (.inr ha)) fun _ => h.bind (ha.result _) fun _ => h.pure _
  | assign lhs rhs compound declare =>
      cases compound with
      | some operator => exact h.fail (by simp)
      | none => exact h.bind (hs.assignment h ha hstmt) fun _ => h.pure _
  | ifElse branches default =>
      refine h.bind (inherits_chooseBranch h (fun _ _ => .inr ha) 0) fun chosen => ?_
      cases chosen with
      | some n => exact h.pure _
      | none => exact h.pure _
  | loop kind predicate body => exact h.bind (h.eval r predicate (.inr ha)) fun _ => h.pure _
  | call c => exact h.bind (ha.call r h c) fun _ => h.pure _
  | jumpFar target =>
      exact h.bind (h.eval r target (.inr ha)) fun _ => h.bind (ha.nextHandler _) fun _ => h.pure _
  | switch => exact h.fail (by simp)

/-! ## Hooks and visits -/

theorem Reads.forM (h : Reads P) {α : Type} {items : List α} {work : α → Run PUnit}
    (hwork : ∀ a, P (work a)) : P (items.forM work) := by
  induction items with
  | nil => exact h.pure ()
  | cons a rest ih => exact h.bind (hwork a) fun _ => ih

theorem inherits_logTest (h : Reads P) (hp : Prepares P) {predicate : Expr}
    (hcalls : (testOf predicate).CallFree ∨ Answers P) : P (logTest r predicate) := by
  unfold logTest
  dsimp only
  split
  · exact h.pure ()
  · exact h.bind (h.eval r _ hcalls) fun _ => hp.say _

/-- The first test of the statement has no calls, if the statement is a two-way branch. -/
def TestsCallFree (r : Draft) (id : StmtId) : Prop :=
  ∀ predicate, (r.stmt? id).bind twoWayTest? = some (some predicate) → (testOf predicate).CallFree

theorem inherits_beforeStatementAt (h : Reads P) (hp : Prepares P) {id : StmtId}
    (hcalls : TestsCallFree r id ∨ Answers P) (place : Nat) : P (beforeStatementAt r id place) := by
  refine h.bind hp.own fun chain => ?_
  split
  · split
    · split
      · rename_i test htest
        cases test with
        | some predicate =>
            have hlog : P (logTest r predicate) :=
              inherits_logTest h hp (hcalls.imp_left fun hfree => hfree predicate htest)
            exact h.bind hlog fun _ => hp.settle place
        | none => exact hp.settle place
      · exact h.pure ()
    · exact h.pure ()
  · rename_i script _
    have hfail : P (if script.failAt = some id
        then (Work.fail (.unimplementedStatement Script.failText) : Run Unit) else pure ()) := by
      split
      · exact h.fail (by simp)
      · exact h.pure ()
    by_cases hhooks : script.hooks = true
    · rw [if_pos hhooks]
      exact h.bind (hp.say _) fun _ => hfail
    · rw [if_neg hhooks]
      exact hfail
  · exact h.pure ()

/-- What the simulators do before a statement has the trait, if the answers of the chain have it or
no calls stand in the test that they log. -/
theorem inherits_beforeStatement (h : Reads P) (hp : Prepares P) {id : StmtId}
    (hcalls : TestsCallFree r id ∨ Answers P) : P (beforeStatement r id) :=
  h.bind hp.own fun _ => Reads.forM h fun place => inherits_beforeStatementAt h hp hcalls place

/-- **Visits inherit.** -/
theorem inherits_visit (h : Reads P) (ha : Answers P) (hs : Stores r P) (hp : Prepares P)
    (g : Graph) (id : StmtId) : P (visit r g id) := by
  refine h.bind (inherits_beforeStatement h hp (.inr ha)) fun _ => ?_
  split
  · rename_i s hstmt
    exact inherits_execute h ha hs g hstmt
  · exact h.pure _

end

end Emulator

end RoutineEmulator
