import RoutineEmulator.Proofs.Emulation.Inheritance
import RoutineEmulator.Proofs.Simulation.Agreement
/-!
Pending pops do not direct an emulation.

Expressions and statements ask the chain for answers and for nothing else. Since chains that differ
in pending pops only give the same answers, whatever is executed on sessions of that kind goes the
same way.
-/

namespace RoutineEmulator.Emulator

open Work Evaluation Simulator

/-- Agreement with itself, of computations on sessions that differ in pending pops. -/
abbrev agreement : Trait := fun _ work => Agree settledAll work work

theorem agree_reads : Reads agreement where
  pure := Agree.pure
  fail _ := Agree.fail _
  bind := Agree.bind
  machine := Agree.machine
  ask _ := Agree.ask _

/-- Whether a chain recognises a call does not depend on its pops. -/
theorem findSome?_demand? {chain chain' : List Simulator} (h : settledAll chain = settledAll chain')
    (callee : String) :
    chain.findSome? (·.demand? callee) = chain'.findSome? (·.demand? callee) := by
  have hview : ∀ chain : List Simulator,
      (settledAll chain).findSome? (·.demand? callee) = chain.findSome? (·.demand? callee) := by
    intro chain
    rw [settledAll, List.findSome?_map]
    simp only [Function.comp_def, demand?_settlePops]
  rw [← hview chain, h, hview]

/-- The chains recognise the same calls, ask for the same arguments and answer the same. -/
theorem agree_simulateWith (callee : Callee) (args : List Expr) {evalArgs : Nat → Run (List Int64)}
    (hargs : ∀ count, Agree settledAll (evalArgs count) (evalArgs count)) :
    Agree settledAll (simulateWith callee args evalArgs) (simulateWith callee args evalArgs) := by
  rintro ⟨own, s, log⟩ ⟨own', s', log'⟩ halike
  have hdemand := findSome?_demand? halike.own (normalizeName callee.name)
  unfold simulateWith
  rw [runOn_bind_of_ok runOn_own, runOn_bind_of_ok runOn_own]
  dsimp only at hdemand ⊢
  rw [← hdemand]
  split
  · exact ⟨rfl, halike⟩
  · refine ((hargs _).bind fun values => ?_) ⟨own, s, log⟩ ⟨own', s', log'⟩ halike
    -- the answer of the chain reads the session as a whole and replaces it
    rintro ⟨own, s, log⟩ ⟨own', s', log'⟩ ⟨hown, hs⟩
    obtain rfl : s = s' := hs
    obtain ⟨hresult, hleft⟩ :=
      respondFirst_agree (normalizeName callee.name) args values hown s log log'
    rw [runOn_bind_of_ok (runOn_get _), runOn_bind_of_ok (runOn_get _)]
    dsimp only at hresult hleft ⊢
    rw [runOn_bind_of_ok (runOn_set _ _), runOn_bind_of_ok (runOn_set _ _), hresult]
    generalize (respondFirst _ _ _ own' s log').1 = result
    cases result with
    | ok answer => exact ⟨rfl, hleft⟩
    | error e => exact ⟨rfl, hleft⟩

/-- The answers of the chain agree, and so do the registers that calls set. -/
theorem agree_answers : Answers agreement where
  chain callee args _ hargs := agree_simulateWith callee args hargs
  result _ := Agree.setRegister _ _
  nextHandler _ := Agree.setRegister _ _

theorem agree_stores (r : Draft) : Stores r agreement where
  write _ _ _ := Agree.change _
  assign _ _ _ := Agree.change _

/-- Expressions have one value on sessions that differ in pending pops. -/
theorem agree_eval (r : Draft) (e : Expr) : Agree settledAll (eval r e) (eval r e) :=
  agree_reads.eval r e (.inr agree_answers)

/-- **Statements agree.** -/
theorem agree_execute {r : Draft} (g : Graph) {id : StmtId} {s : Stmt}
    (hstmt : r.stmt? id = some s) : Agree settledAll (execute r g id s) (execute r g id s) :=
  inherits_execute agree_reads agree_answers (agree_stores r) g hstmt

end RoutineEmulator.Emulator
