import RoutineEmulator.Proofs.Emulation.Inheritance
import RoutineEmulator.Proofs.Simulation.Steady
/-!
Visiting a statement is a steady computation.

Nothing that an expression or a statement does looks at the log, whatever simulators answer its
calls. So a visit appends the same lines to every log, and it never fails for want of visits.
-/

namespace RoutineEmulator.Emulator

open Work Evaluation

/-- Steadiness, of computations on a session. -/
abbrev steadiness : Trait := fun _ work => work.Steady

theorem steady_reads : Reads steadiness where
  pure := Steady.pure
  fail := Steady.fail
  bind := Steady.bind
  machine := Steady.machine
  ask := Steady.ask

/-- Asking the chain is steady, since the first simulator that recognises a call answers the same
for every log. -/
theorem steady_simulateWith (callee : Callee) (args : List Expr)
    {evalArgs : Nat → Run (List Int64)} (h : ∀ count, (evalArgs count).Steady) :
    (simulateWith callee args evalArgs).Steady := by
  refine Steady.own.bind fun chain => ?_
  split
  · exact .pure none
  · refine (h _).bind fun values => ?_
    -- the answer of the chain reads the bench as a whole and replaces it
    intro own s
    obtain ⟨result, own', s', lines, hspares, hrespond⟩ :=
      Simulator.respondFirst_steady (normalizeName callee.name) args values own s
    refine ⟨result, own', s', lines, hspares, fun log => ?_⟩
    rw [runOn_bind_of_ok (runOn_get _)]
    simp only [hrespond log]
    rw [runOn_bind_of_ok (runOn_set _ _)]
    cases result <;> rfl

/-- The answers of the chain are steady, and so are the registers that calls set. -/
theorem steady_answers : Answers steadiness where
  chain := steady_simulateWith
  result _ := .setRegister _ _
  nextHandler _ := .setRegister _ _

/-- Stores to memory and to variables are steady. -/
theorem steady_stores (r : Draft) : Stores r steadiness where
  write address value size := .change fun s => s.sparesLimit_write address value size
  assign var value _ := .change fun s => s.sparesLimit_setVarValue var value

theorem steady_prepares : Prepares steadiness where
  own := Steady.own
  say := Steady.say
  settle _ := Steady.own.bind fun _ => .setOwn _

/-- **Visits are steady.** -/
theorem steady_visit (r : Draft) (g : Graph) (id : StmtId) : (visit r g id).Steady :=
  inherits_visit steady_reads steady_answers (steady_stores r) steady_prepares g id

end RoutineEmulator.Emulator
