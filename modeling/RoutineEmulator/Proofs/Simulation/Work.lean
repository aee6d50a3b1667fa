import RoutineEmulator.Simulation.Bench
/-!
Laws of computations on a bench.

`Work.runOn` turns a computation into a function on benches. Each primitive has one law that says
what it answers and which bench it leaves; `runOn_bind` is the law of sequencing: a fault ends the
computation, and the bench it had reached stays.
-/

namespace RoutineEmulator.Work

variable {σ α β : Type}

@[simp] theorem runOn_pure (a : α) (bench : Bench σ) :
    runOn (pure a : Work σ α) bench = (.ok a, bench) := rfl

@[simp] theorem runOn_fail (e : EmulationError) (bench : Bench σ) :
    runOn (fail e : Work σ α) bench = (.error e, bench) := rfl

/-- A fault ends a sequence; the bench it was reached on stays. -/
theorem runOn_bind (work : Work σ α) (next : α → Work σ β) (bench : Bench σ) :
    runOn (work >>= next) bench =
      match work.runOn bench with
      | (.ok a, bench) => (next a).runOn bench
      | (.error e, bench) => (.error e, bench) := by
  show (ExceptT.run (work >>= next)) bench = _
  rw [ExceptT.run_bind]
  show (ExceptT.run work >>= _) bench = _
  simp only [bind, StateT.bind, runOn, StateT.run]
  cases h : ExceptT.run work bench with
  | mk result bench =>
      cases result <;> rfl

/-- A sequence goes on with the answer of its first part, on the bench that this left. -/
theorem runOn_bind_of_ok {work : Work σ α} {next : α → Work σ β} {bench bench' : Bench σ} {a : α}
    (h : work.runOn bench = (.ok a, bench')) :
    runOn (work >>= next) bench = (next a).runOn bench' := by
  rw [runOn_bind, h]

/-- A sequence whose first part fails does not come to the second. -/
theorem runOn_bind_of_error {work : Work σ α} {next : α → Work σ β} {bench bench' : Bench σ}
    {e : EmulationError} (h : work.runOn bench = (.error e, bench')) :
    runOn (work >>= next) bench = (.error e, bench') := by
  rw [runOn_bind, h]

/-- A sequence that answers came through an answer of its first part. -/
theorem exists_of_runOn_bind_eq_ok {work : Work σ α} {next : α → Work σ β} {bench bench' : Bench σ}
    {b : β} (h : runOn (work >>= next) bench = (.ok b, bench')) :
    ∃ a between, work.runOn bench = (.ok a, between) ∧
      (next a).runOn between = (.ok b, bench') := by
  rw [runOn_bind] at h
  split at h
  · rename_i a between hfirst
    exact ⟨a, between, hfirst, h⟩
  · cases h

/-! ## Primitives -/

@[simp] theorem runOn_get (bench : Bench σ) :
    runOn (get : Work σ (Bench σ)) bench = (.ok bench, bench) := rfl

@[simp] theorem runOn_set (bench bench' : Bench σ) :
    runOn (set bench' : Work σ PUnit) bench = (.ok (), bench') := rfl

section Primitives

variable {own : σ} {s s' : Machine} {log : OutputLog}

@[simp] theorem runOn_machine : runOn machine ⟨own, s, log⟩ = (.ok s, ⟨own, s, log⟩) := rfl

@[simp] theorem runOn_own : runOn Work.own ⟨own, s, log⟩ = (.ok own, ⟨own, s, log⟩) := rfl

@[simp] theorem runOn_setOwn (state : σ) :
    runOn (setOwn state) ⟨own, s, log⟩ = (.ok (), ⟨state, s, log⟩) := rfl

@[simp] theorem runOn_say (line : String) :
    runOn (say line) ⟨own, s, log⟩ = (.ok (), ⟨own, s, log.push line⟩) := rfl

@[simp] theorem runOn_setRegister (id : RegisterId) (value : UInt64) :
    runOn (setRegister id value) ⟨own, s, log⟩ = (.ok (), ⟨own, s.setRegister id value, log⟩) := rfl

/-- A question leaves the bench as it is, whatever the answer. -/
theorem runOn_ask (question : Machine → Except EmulationError α) :
    runOn (ask question) ⟨own, s, log⟩ = (question s, ⟨own, s, log⟩) := by
  unfold ask
  rw [runOn_bind_of_ok (runOn_get _)]
  dsimp only
  cases question s <;> rfl

theorem runOn_ask_of_ok {question : Machine → Except EmulationError α} {a : α}
    (h : question s = .ok a) : runOn (ask question) ⟨own, s, log⟩ = (.ok a, ⟨own, s, log⟩) := by
  rw [runOn_ask, h]

/-- A change that succeeds replaces the machine and nothing else. -/
theorem runOn_change_of_ok {step : Machine → Except EmulationError Machine} (h : step s = .ok s') :
    runOn (change step) ⟨own, s, log⟩ = (.ok (), ⟨own, s', log⟩) := by
  unfold change
  rw [runOn_bind_of_ok (runOn_get _)]
  dsimp only
  rw [h]
  rfl

/-- A change that faults leaves the whole bench as it is. -/
theorem runOn_change_of_error {step : Machine → Except EmulationError Machine} {e : EmulationError}
    (h : step s = .error e) : runOn (change step) ⟨own, s, log⟩ = (.error e, ⟨own, s, log⟩) := by
  unfold change
  rw [runOn_bind_of_ok (runOn_get _)]
  dsimp only
  rw [h]
  rfl

/-- A sequence that starts with a question goes on on the same bench, or fails there. -/
theorem runOn_ask_bind (question : Machine → Except EmulationError α) (next : α → Work σ β) :
    runOn (ask question >>= next) ⟨own, s, log⟩ =
      match question s with
      | .ok a => (next a).runOn ⟨own, s, log⟩
      | .error e => (.error e, ⟨own, s, log⟩) := by
  rw [runOn_bind, runOn_ask]
  cases question s <;> rfl

/-- A sequence that starts with a change goes on with the new machine, or fails on the old one. -/
theorem runOn_change_bind (step : Machine → Except EmulationError Machine)
    (next : Unit → Work σ β) :
    runOn (change step >>= next) ⟨own, s, log⟩ =
      match step s with
      | .ok s' => (next ()).runOn ⟨own, s', log⟩
      | .error e => (.error e, ⟨own, s, log⟩) := by
  cases h : step s with
  | ok s' => rw [runOn_bind_of_ok (runOn_change_of_ok h)]
  | error e => rw [runOn_bind_of_error (runOn_change_of_error h)]

/-- A sequence that answers got an answer to its first question. -/
theorem exists_of_runOn_ask_bind_eq_ok {question : Machine → Except EmulationError α}
    {next : α → Work σ β} {b : β} {after : Bench σ}
    (h : runOn (ask question >>= next) ⟨own, s, log⟩ = (.ok b, after)) :
    ∃ a, question s = .ok a ∧ (next a).runOn ⟨own, s, log⟩ = (.ok b, after) := by
  rw [runOn_ask_bind] at h
  cases hquestion : question s with
  | ok a =>
      rw [hquestion] at h
      exact ⟨a, rfl, h⟩
  | error e =>
      rw [hquestion] at h
      cases h

/-- A sequence that answers made its first change. -/
theorem exists_of_runOn_change_bind_eq_ok {step : Machine → Except EmulationError Machine}
    {next : Unit → Work σ β} {b : β} {after : Bench σ}
    (h : runOn (change step >>= next) ⟨own, s, log⟩ = (.ok b, after)) :
    ∃ s', step s = .ok s' ∧ (next ()).runOn ⟨own, s', log⟩ = (.ok b, after) := by
  rw [runOn_change_bind] at h
  cases hstep : step s with
  | ok s' =>
      rw [hstep] at h
      exact ⟨s', rfl, h⟩
  | error e =>
      rw [hstep] at h
      cases h

end Primitives

end RoutineEmulator.Work
