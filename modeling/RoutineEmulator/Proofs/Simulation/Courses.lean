import RoutineEmulator.Proofs.Simulation.Work
/-!
What computations leave behind.

A computation moves a bench, whether it succeeds or fails. It moves along a relation when every
bench is related to the one that it leaves. For a relation that goes on from step to step, a course,
a sequence moves along it when its parts do.
-/

namespace RoutineEmulator.Work

variable {σ α β : Type} {R : Bench σ → Bench σ → Prop}

/-- Every bench is related to the one that the computation leaves, also where it fails. -/
def Moves (R : Bench σ → Bench σ → Prop) (work : Work σ α) : Prop :=
  ∀ bench, R bench (work.runOn bench).2

/-- A relation along which computations go step after step. -/
structure Course (R : Bench σ → Bench σ → Prop) : Prop where
  refl : ∀ bench, R bench bench
  trans : ∀ {a b c}, R a b → R b c → R a c

namespace Course

theorem pure (h : Course R) (a : α) : (pure a : Work σ α).Moves R :=
  h.refl

theorem fail (h : Course R) (e : EmulationError) : (Work.fail e : Work σ α).Moves R :=
  h.refl

/-- Where the first part fails, the bench that it leaves is the last one. -/
theorem bind (h : Course R) {work : Work σ α} {next : α → Work σ β} (hwork : work.Moves R)
    (hnext : ∀ a, (next a).Moves R) : (work >>= next).Moves R := by
  intro bench
  have hfirst := hwork bench
  rw [runOn_bind]
  split
  · rename_i a between hrun
    rw [hrun] at hfirst
    exact h.trans hfirst (hnext a between)
  · rename_i e between hrun
    rw [hrun] at hfirst
    exact hfirst

theorem machine (h : Course R) : (Work.machine : Work σ Machine).Moves R :=
  h.refl

theorem own (h : Course R) : (Work.own : Work σ σ).Moves R :=
  h.refl

theorem ask (h : Course R) (question : Machine → Except EmulationError α) :
    (Work.ask question : Work σ α).Moves R := by
  rintro ⟨own, s, log⟩
  rw [runOn_ask]
  exact h.refl _

/-- A change moves along the relation when the machines that it answers with do. -/
theorem change (h : Course R) {step : Machine → Except EmulationError Machine}
    (hstep : ∀ own s s' log, step s = .ok s' → R ⟨own, s, log⟩ ⟨own, s', log⟩) :
    (Work.change step).Moves R := by
  rintro ⟨own, s, log⟩
  cases hrun : step s with
  | ok s' =>
      rw [runOn_change_of_ok hrun]
      exact hstep own s s' log hrun
  | error e =>
      rw [runOn_change_of_error hrun]
      exact h.refl _

end Course

/-- Where the relation does not look at the log, it may be written to. -/
theorem moves_say (h : ∀ bench log, R bench { bench with log }) (line : String) :
    (Work.say line : Work σ Unit).Moves R := fun bench => h bench (bench.log.push line)

/-- Replacing the own state by one that depends on it. -/
theorem moves_update {f : σ → σ} {answer : σ → α}
    (h : ∀ own s log, R ⟨own, s, log⟩ ⟨f own, s, log⟩) :
    (do
      let state ← Work.own
      Work.setOwn (f state)
      return answer state : Work σ α).Moves R := fun ⟨own, s, log⟩ => h own s log

end RoutineEmulator.Work
