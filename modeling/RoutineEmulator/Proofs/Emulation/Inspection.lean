import RoutineEmulator.Proofs.Emulation.Inheritance
import RoutineEmulator.Proofs.Simulation.Work
/-!
Evaluations that only look at the machine.

A computation inspects when it answers from the machine alone and leaves the bench as it is, also
where it fails. Everything that an evaluation does but asking the chain is of that kind, so that an
expression without calls has one value, or one fault, on each machine, whoever asks for it and
however often.
-/

namespace RoutineEmulator

namespace Work

variable {σ α β : Type}

/-- The result depends on the machine alone, and the bench stays as it is. -/
def Inspects (work : Work σ α) : Prop :=
  ∀ s, ∃ result, ∀ own log, work.runOn ⟨own, s, log⟩ = (result, ⟨own, s, log⟩)

namespace Inspects

theorem pure (a : α) : (pure a : Work σ α).Inspects := fun _ => ⟨.ok a, fun _ _ => rfl⟩

theorem fail (e : EmulationError) : (Work.fail e : Work σ α).Inspects :=
  fun _ => ⟨.error e, fun _ _ => rfl⟩

/-- A sequence inspects if its parts do: the second looks at the machine that the first one looked
at. -/
theorem bind {work : Work σ α} {next : α → Work σ β} (h : work.Inspects)
    (hnext : ∀ a, (next a).Inspects) : (work >>= next).Inspects := by
  intro s
  obtain ⟨result, hrun⟩ := h s
  cases result with
  | error e => exact ⟨.error e, fun own log => runOn_bind_of_error (hrun own log)⟩
  | ok a =>
      obtain ⟨result, hrun'⟩ := hnext a s
      exact ⟨result, fun own log => (runOn_bind_of_ok (hrun own log)).trans (hrun' own log)⟩

theorem machine : (Work.machine : Work σ Machine).Inspects := fun s => ⟨.ok s, fun _ _ => rfl⟩

theorem ask (question : Machine → Except EmulationError α) :
    (Work.ask question : Work σ α).Inspects := fun s => ⟨question s, fun _ _ => runOn_ask question⟩

/-- What inspects leaves the bench as it is, also where it fails. -/
theorem keeps {work : Work σ α} (h : work.Inspects) (bench : Bench σ) :
    (work.runOn bench).2 = bench := by
  obtain ⟨own, s, log⟩ := bench
  obtain ⟨result, hrun⟩ := h s
  rw [hrun]

/-- The result tells the whole run. -/
theorem runOn_eq {work : Work σ α} (h : work.Inspects) {bench : Bench σ}
    {result : Except EmulationError α} (hresult : (work.runOn bench).1 = result) :
    work.runOn bench = (result, bench) :=
  Prod.ext hresult (h.keeps bench)

theorem ok_or_error {work : Work σ α} (h : work.Inspects) (bench : Bench σ) :
    (∃ a, work.runOn bench = (.ok a, bench)) ∨ ∃ e, work.runOn bench = (.error e, bench) := by
  cases hresult : (work.runOn bench).1 with
  | ok a => exact .inl ⟨a, h.runOn_eq hresult⟩
  | error e => exact .inr ⟨e, h.runOn_eq hresult⟩

end Inspects

end Work

namespace Evaluation

open Work

/-- All that an evaluation does but asking the chain inspects. -/
theorem inspects_reads : Reads fun _ work => work.Inspects where
  pure := Inspects.pure
  fail _ := Inspects.fail _
  bind := Inspects.bind
  machine := Inspects.machine
  ask _ := Inspects.ask _

/-- Evaluating an expression without calls leaves the session as it is. -/
theorem eval_of_callFree {r : Draft} {e : Expr} (h : e.CallFree) {session : Session} :
    ((eval r e).runOn session).2 = session :=
  (inspects_reads.eval r e (.inl h)).keeps session

/-- The same for arguments without calls. -/
theorem evalArgs_of_callFree (r : Draft) (name : String) {args : List Expr}
    (hfree : ∀ e ∈ args, e.CallFree) (index count : Nat) (session : Session) :
    ((evalArgs r name args index count).runOn session).2 = session :=
  (inspects_reads.evalArgs r name args index count fun e he => .inl (hfree e he)).keeps session

/-- **Without calls, evaluating is looking.** On every machine an expression without calls has one
value or one fault, and one target or one fault where it stands under a dereference. They are the
same for every chain of simulators and every log, and chain, machine and log stay as they are. -/
theorem eval_inspects_machine (r : Draft) {e : Expr} (h : e.CallFree) (s : Machine) :
    (∃ value, ∀ (chain : List Simulator) (log : OutputLog),
      (eval r e).runOn ⟨chain, s, log⟩ = (value, ⟨chain, s, log⟩)) ∧
    ∃ target, ∀ (chain : List Simulator) (log : OutputLog),
      (derefTarget r e).runOn ⟨chain, s, log⟩ = (target, ⟨chain, s, log⟩) :=
  ⟨inspects_reads.eval r e (.inl h) s, inspects_reads.derefTarget r e (.inl h) s⟩

/-- A quotient whose dividend is read from memory and whose divisor is zero. It fails in the same
way for every chain and every log, and they stay as they are. -/
theorem eval_inspects_machine_quotient :
    let r : Draft := { name := "f", address := 0, stmts := #[], body := ⟨0⟩ }
    let s : Machine := .new {} ((Memory.new .big 32).mapPages .readWrite [2])
    let quotient : Expr := .op .div [.op .ptr [.ptr 0x2000], .op .logNot [.int 1]]
    quotient.CallFree ∧ ∃ text, ∀ (chain : List Simulator) (log : OutputLog),
      (eval r quotient).runOn ⟨chain, s, log⟩ = (.error (.divisionByZero text), ⟨chain, s, log⟩) ∧
      (derefTarget r quotient).runOn ⟨chain, s, log⟩ =
        (.error (.divisionByZero text), ⟨chain, s, log⟩) := by
  intro r s quotient
  have hfree : quotient.CallFree := by decide
  obtain ⟨⟨value, hvalue⟩, target, htarget⟩ := eval_inspects_machine r hfree s
  -- the empty chain and the empty log tell which fault it is
  have heval : ((eval r quotient).runOn ⟨[], s, {}⟩).1 =
    .error (.divisionByZero (r.renderExpr quotient)) := rfl
  have hderef : ((derefTarget r quotient).runOn ⟨[], s, {}⟩).1 =
    .error (.divisionByZero (r.renderExpr quotient)) := rfl
  rw [hvalue] at heval
  rw [htarget] at hderef
  obtain rfl : value = _ := heval
  obtain rfl : target = _ := hderef
  exact ⟨hfree, r.renderExpr quotient, fun chain log => ⟨hvalue chain log, htarget chain log⟩⟩

end Evaluation

end RoutineEmulator
