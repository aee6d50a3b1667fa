import RoutineEmulator.Proofs.Emulation.Courses
import RoutineEmulator.Proofs.Emulation.Inspection
import RoutineEmulator.Proofs.Emulation.Rejection
import RoutineEmulator.Proofs.Emulation.StepLimit
/-!
Statements that fail.

A statement without calls looks before it changes anything: it evaluates what it needs, then it
changes the session at most once, and nothing can fail after that. So it has all of its effect or
none. A run of such statements that fails leaves the machine as its last completed statement left
it.
-/

namespace RoutineEmulator

namespace Work

variable {σ α β : Type}

/-- Where the computation fails, it leaves the bench as it was. -/
def Atomic (work : Work σ α) : Prop :=
  ∀ bench e left, work.runOn bench = (.error e, left) → left = bench

namespace Atomic

theorem of_inspects {work : Work σ α} (h : work.Inspects) : work.Atomic := by
  intro bench e left hrun
  have hkept := h.keeps bench
  rw [hrun] at hkept
  exact hkept

theorem fail (e : EmulationError) : (Work.fail e : Work σ α).Atomic :=
  of_inspects (Inspects.fail e)

/-- Looking may come first. -/
theorem inspects_bind {work : Work σ α} {next : α → Work σ β} (h : work.Inspects)
    (hnext : ∀ a, (next a).Atomic) : (work >>= next).Atomic := by
  intro bench e left hrun
  rcases h.ok_or_error bench with ⟨a, hfirst⟩ | ⟨e', hfirst⟩
  · rw [runOn_bind_of_ok hfirst] at hrun
    exact hnext a bench e left hrun
  · rw [runOn_bind_of_error hfirst] at hrun
    exact (Prod.mk.inj hrun).2.symm

/-- What only answers may come last. -/
theorem bind_pure {work : Work σ α} (h : work.Atomic) (f : α → β) :
    (work >>= fun a => pure (f a)).Atomic := by
  intro bench e left hrun
  cases hfirst : work.runOn bench with
  | mk result between =>
      cases result with
      | ok a =>
          rw [runOn_bind_of_ok hfirst] at hrun
          cases hrun
      | error e' =>
          rw [runOn_bind_of_error hfirst] at hrun
          cases hrun
          exact h bench e left hfirst

theorem change (step : Machine → Except EmulationError Machine) :
    (Work.change step : Work σ Unit).Atomic := by
  rintro ⟨own, s, log⟩ e left hrun
  cases hstep : step s with
  | ok s' =>
      rw [runOn_change_of_ok hstep] at hrun
      cases hrun
  | error e' =>
      rw [runOn_change_of_error hstep] at hrun
      exact (Prod.mk.inj hrun).2.symm

theorem setRegister (id : RegisterId) (value : UInt64) :
    (Work.setRegister id value : Work σ PUnit).Atomic := by
  rintro ⟨own, s, log⟩ e left hrun
  rw [runOn_setRegister] at hrun
  cases hrun

end Atomic

end Work

/-! ## Statements without calls -/

namespace Stmt

/-- The callee of a call, where the decompiler knows it. -/
def callee? : Stmt → Option Callee
  | call c => c.callee
  | _ => none

/-- No simulator is asked by the statement: no call stands in its expressions, and it is none that
has a callee. -/
structure SelfContained (s : Stmt) : Prop where
  callFree : ∀ e ∈ s.exprs, e.isCall = false
  callee : s.callee? = none

instance (s : Stmt) : Decidable s.SelfContained :=
  decidable_of_iff ((∀ e ∈ s.exprs, e.isCall = false) ∧ s.callee? = none)
    ⟨fun h => ⟨h.1, h.2⟩, fun h => ⟨h.callFree, h.callee⟩⟩

end Stmt

theorem Expr.CallFree.of_derefOperand? {e pointer : Expr} (h : e.CallFree)
    (hderef : e.derefOperand? = some pointer) : pointer.CallFree := by
  unfold derefOperand? at hderef
  split at hderef
  · obtain rfl := Option.some.inj hderef
    exact callFree_op_iff.mp h _ List.mem_cons_self
  · cases hderef

theorem Expr.CallFree.testOf {e : Expr} (h : e.CallFree) : (Evaluation.testOf e).CallFree := by
  unfold Evaluation.testOf
  split
  · exact callFree_predicate_iff.mp h
  · exact h

namespace Emulator

open Work Evaluation

variable {r : Draft} {g : Graph} {id : StmtId}

/-- An assignment writes once, and only when everything is known that it needs. -/
theorem atomic_assign {lhs rhs : Expr} (hlhs : lhs.CallFree) (hrhs : rhs.CallFree) :
    (Evaluation.assign r lhs rhs).Atomic := by
  refine .inspects_bind (inspects_reads.eval r rhs (.inl hrhs)) fun value => ?_
  split
  · rename_i pointer hderef
    have hpointer : pointer.CallFree := hlhs.of_derefOperand? hderef
    exact .inspects_bind (inspects_reads.derefTarget r pointer (.inl hpointer)) fun _ => .change _
  · split
    · exact .inspects_bind (inspects_reads.computes.identOf r _) fun _ => .change _
    · exact .fail _

theorem atomic_call {c : Call} (hcallee : c.callee = none) (hsite : c.callsite.CallFree) :
    (Evaluation.call r c).Atomic := by
  unfold Evaluation.call callWith
  rw [hcallee]
  exact .inspects_bind (inspects_reads.eval r _ (.inl hsite)) fun _ => .setRegister _ _

/-- **Statements without calls are atomic.** -/
theorem atomic_execute (g : Graph) (id : StmtId) {s : Stmt} (h : s.SelfContained) :
    (execute r g id s).Atomic := by
  obtain ⟨hfree, hcallee⟩ := h
  have heval : ∀ e : Expr, e.CallFree → (eval r e).Inspects := fun e he =>
    inspects_reads.eval r e (.inl he)
  cases s with
  | goto | label | block | decl | breakLoop | continueLoop => exact .of_inspects (.pure _)
  | ret value =>
      cases value with
      | none => exact .of_inspects (.pure _)
      | some value =>
          exact .inspects_bind (heval value hfree) fun _ => .bind_pure (.setRegister _ _) _
  | assign lhs rhs compound declare =>
      rw [Stmt.exprs, List.forall_mem_append] at hfree
      cases compound with
      | some operator => exact .fail _
      | none => exact .bind_pure (atomic_assign hfree.1 hfree.2) _
  | ifElse branches default =>
      rw [Stmt.exprs, List.forall_mem_flatMap] at hfree
      have hchoose : (chooseBranch r branches 0).Inspects :=
        inherits_chooseBranch inspects_reads (fun branch hbranch => .inl (hfree branch hbranch)) 0
      refine .inspects_bind hchoose fun chosen => ?_
      cases chosen with
      | some n => exact .of_inspects (.pure _)
      | none => exact .of_inspects (.pure _)
  | loop kind predicate body =>
      exact .inspects_bind (heval predicate hfree) fun _ => .of_inspects (.pure _)
  | call c =>
      rw [Stmt.exprs, Call.subexprs, List.forall_mem_append] at hfree
      exact .bind_pure (atomic_call hcallee hfree.1) _
  | jumpFar target =>
      exact .inspects_bind (heval target hfree) fun _ => .bind_pure (.setRegister _ _) _
  | switch => exact .fail _

/-! ## Visits -/

theorem testsCallFree_of_selfContained (h : ∀ s, r.stmt? id = some s → s.SelfContained) :
    TestsCallFree r id := by
  intro predicate htest
  obtain ⟨s, hstmt, htest⟩ := Option.bind_eq_some_iff.mp htest
  have hfree := (h s hstmt).callFree
  unfold twoWayTest? at htest
  split at htest
  · split at htest
    · rename_i branches default _
      rw [Stmt.exprs, List.forall_mem_flatMap] at hfree
      obtain ⟨branch, hbranch, rfl⟩ := Option.map_eq_some_iff.mp (Option.some.inj htest)
      exact Expr.CallFree.testOf (hfree branch (List.mem_of_head? hbranch))
    · cases htest
  · cases htest

/-- Before a statement whose tests have no calls the simulators leave the machine alone. -/
theorem machine_of_beforeStatement (h : TestsCallFree r id) (session : Session) :
    ((beforeStatement r id).runOn session).2.machine = session.machine := by
  have hcourse : Course fun before after : Session => after.machine = before.machine :=
    ⟨fun _ => rfl, fun h h' => h'.trans h⟩
  have hprepares : Prepares fun _ work =>
      work.Moves fun before after : Session => after.machine = before.machine :=
    { own := hcourse.own
      say := moves_say fun _ _ => rfl
      settle := fun _ _ => rfl }
  exact inherits_beforeStatement (CallCourse.reads hcourse) hprepares (.inl h) session

/-- A visit that fails does so in the preparation or in the statement, and both leave the machine
alone. -/
theorem machine_of_visit_eq_error (h : ∀ s, r.stmt? id = some s → s.SelfContained)
    {session left : Session} {e : EmulationError}
    (hrun : (visit r g id).runOn session = (.error e, left)) : left.machine = session.machine := by
  have hbefore := machine_of_beforeStatement (testsCallFree_of_selfContained h) session
  unfold visit at hrun
  cases hprepare : (beforeStatement r id).runOn session with
  | mk result prepared =>
      rw [hprepare] at hbefore
      cases result with
      | error e' =>
          rw [runOn_bind_of_error hprepare] at hrun
          cases hrun
          exact hbefore
      | ok _ =>
          rw [runOn_bind_of_ok hprepare] at hrun
          split at hrun
          · rename_i s hstmt
            obtain rfl := atomic_execute g id (h s hstmt) _ _ _ hrun
            exact hbefore
          · cases hrun

/-! ## Runs -/

namespace Point

variable {settings : Settings} {p : Point}

/-- Every walk comes to a last point, behind the last visit that it completes. -/
theorem exists_last (settings : Settings) (r : Draft) (g : Graph) (p : Point) :
    ∃ q, p.Reaches settings r g q ∧ q.advance? settings r g = none := by
  obtain ⟨visits, hvisits⟩ : ∃ visits, p.visits = visits := ⟨_, rfl⟩
  induction visits generalizing p with
  | zero => exact ⟨p, .start, by unfold advance?; rw [hvisits]⟩
  | succ visits ih =>
      cases hadvance : p.advance? settings r g with
      | none => exact ⟨p, .start, hadvance⟩
      | some next =>
          obtain ⟨left, _, _, _, hmore, _, _, rfl⟩ := advance?_eq_some_iff.mp hadvance
          obtain rfl : left = visits := Nat.succ.inj (hmore.symm.trans hvisits)
          obtain ⟨q, hreaches, hlast⟩ := ih ⟨left, _, _, _⟩ rfl
          exact ⟨q, (Reaches.start.advance hadvance).trans hreaches, hlast⟩

/-- Where visits are left and a statement is to be visited, its visit fails at the last point, and
the walk ends with what that leaves. -/
theorem exists_error_of_last {visits : Nat} (hvisits : p.visits = visits + 1)
    (hcurrent : p.current = some id) (hlast : p.advance? settings r g = none) :
    ∃ e, (visit r g id).runOn (announce settings (r.renderStmt id) p.session) =
      (.error e, (p.walk settings r g).session) := by
  unfold advance? at hlast
  unfold walk
  rw [hvisits, hcurrent] at hlast ⊢
  rw [Emulator.walk]
  dsimp only at hlast ⊢
  split at hlast
  · rename_i e left hrun
    rw [hrun]
    exact ⟨e, rfl⟩
  · cases hlast

/-- Behind the last completed visit the machine stays, whether the next one fails or there is none. -/
theorem machine_of_last (h : ∀ id s, r.stmt? id = some s → s.SelfContained)
    (hlast : p.advance? settings r g = none) :
    (p.walk settings r g).session.machine = p.session.machine := by
  cases hcurrent : p.current with
  | none => rw [walk_of_none hcurrent]
  | some id =>
      cases hvisits : p.visits with
      | zero => rw [walk_of_zero hvisits hcurrent]
      | succ visits =>
          obtain ⟨e, hrun⟩ := exists_error_of_last hvisits hcurrent hlast
          obtain ⟨lines, hannounce⟩ := announce_log settings (r.renderStmt id) p.session
          rw [machine_of_visit_eq_error (h id) hrun, hannounce]

end Point

/-- The machine after a run is that of its last point, behind the last statement that was completed.
Where the routine has no graph, the machine is as it was before. -/
def EndsAtLastPoint (settings : Settings) (r : Draft) (entry : Graph → Option StmtId)
    (session : Session) (after : Session) : Prop :=
  (∃ e, Graph.build r = .error e ∧ after.machine = session.machine) ∨
    ∃ g p, Graph.build r = .ok g ∧
      (Point.first settings r (entry g) session (settings.maxSteps.getD unlimited)).Reaches
        settings r g p ∧
      p.advance? settings r g = none ∧ after.machine = p.session.machine

theorem run_endsAtLastPoint (h : ∀ id s, r.stmt? id = some s → s.SelfContained)
    (settings : Settings) (entry : Graph → Option StmtId) (session : Session) :
    EndsAtLastPoint settings r entry session (run settings r entry session).2 := by
  cases hbuild : Graph.build r with
  | error e => exact .inl ⟨e, hbuild, (run_of_build_eq_error settings entry session hbuild).2⟩
  | ok g =>
      obtain ⟨p, hreaches, hlast⟩ := Point.exists_last settings r g
        (Point.first settings r (entry g) session (settings.maxSteps.getD unlimited))
      refine .inr ⟨g, p, hbuild, hreaches, hlast, ?_⟩
      rw [Point.run_eq_walk_of_reaches hbuild entry session hreaches]
      exact Point.machine_of_last h hlast

/-- **Failed statements have no effect.** Where a statement without calls fails, it leaves the whole
session as it was, with all registers and all of memory. So an emulation of a routine that has no
other statements leaves the machine as its last completed statement left it, with any simulators and
however it ends; that is also the machine where it fails. -/
theorem failed_statement_leaves_machine (r : Routine) :
    (∀ g id (s : Stmt), s.SelfContained → (execute r.toDraft g id s).Atomic) ∧
    ((∀ s ∈ r.stmts, s.SelfContained) → ∀ settings session,
      EndsAtLastPoint settings r.toDraft (·.entry) session (emulate settings r session).2 ∧
      ∀ entry,
        (r.contains entry = true → EndsAtLastPoint settings r.toDraft (fun _ => some entry) session
          (emulateFrom settings r entry session).2) ∧
        (r.contains entry = false →
          (emulateFrom settings r entry session).2.machine = session.machine)) := by
  refine ⟨fun g id s h => atomic_execute g id h, fun hall settings session => ?_⟩
  have hstmts : ∀ id s, r.stmt? id = some s → s.SelfContained := fun id s hstmt =>
    hall s (Array.mem_of_getElem? hstmt)
  refine ⟨run_endsAtLastPoint hstmts settings _ session, fun entry => ⟨fun hentry => ?_, ?_⟩⟩
  · unfold emulateFrom
    rw [if_pos hentry]
    exact run_endsAtLastPoint hstmts settings _ session
  · intro hentry
    unfold emulateFrom
    rw [if_neg (by rw [hentry]; decide)]

/-- A computed call, and then a store of a word. -/
def failingDraft : Draft where
  name := "failing"
  address := 0x1000
  body := ⟨0⟩
  stmts := #[.block [⟨1⟩, ⟨2⟩], .call (.indirect (.ptr 0x401000) []),
    .assign (.op .ptr [.op .add [.int 0x2ffe, .int 0]]) (.int 1) none false]

def failingRoutine : Routine where
  toDraft := failingDraft
  valid := Draft.check_eq_ok_iff.mpr ⟨by decide, by decide, by decide, by decide⟩

/-- One mapped page, and a simulator with hooks. -/
def failingSession : Session where
  own := [.scripted { name := "hooked", hooks := true }]
  machine := .new {} ((Memory.new .little 32).mapPages .readWrite [2])

/-- The word would end behind the mapped page, so the store fails, and nothing of it is written. The
last point is behind the call, which has set its register. -/
theorem failed_statement_leaves_machine_failing :
    (∀ s ∈ failingRoutine.stmts, s.SelfContained) ∧
    (emulate {} failingRoutine failingSession).1 = .failed (.memoryAccessFault 0x2ffe 4) ∧
    (emulate {} failingRoutine failingSession).2.machine =
      failingSession.machine.setRegister Register.nextHandler 0x401000 ∧
    EndsAtLastPoint {} failingDraft (·.entry) failingSession
      (emulate {} failingRoutine failingSession).2 := by
  have hall : ∀ s ∈ failingRoutine.stmts, s.SelfContained := by decide
  obtain ⟨_, hruns⟩ := failed_statement_leaves_machine failingRoutine
  exact ⟨hall, rfl, rfl, (hruns hall {} failingSession).1⟩

end Emulator

end RoutineEmulator
