import RoutineEmulator.Proofs.Simulation.Steady
import RoutineEmulator.Proofs.StackMachine.Handlers
/-!
Computations on benches that look alike.

Two benches are alike when the machines are the same and the own states are so in one view of them;
the logs may differ. Two computations agree when they answer the same on all such benches and leave
such benches. A stack machine counts its pops for what it logs and for nothing else, so whatever the
simulators of a chain are asked, they agree up to the pops that are pending.
-/

namespace RoutineEmulator

namespace Work

variable {σ τ α β : Type} {view : σ → τ}

/-- The benches have the same machine, and own states that are the same in the view. -/
structure Alike (view : σ → τ) (bench bench' : Bench σ) : Prop where
  own : view bench.own = view bench'.own
  machine : bench.machine = bench'.machine

theorem Alike.refl (view : σ → τ) (bench : Bench σ) : Alike view bench bench :=
  ⟨rfl, rfl⟩

theorem Alike.trans {a b c : Bench σ} (h : Alike view a b) (h' : Alike view b c) :
    Alike view a c :=
  ⟨h.own.trans h'.own, h.machine.trans h'.machine⟩

/-- On benches that are alike the computations answer the same, and they leave such benches. -/
def Agree (view : σ → τ) (work work' : Work σ α) : Prop :=
  ∀ bench bench', Alike view bench bench' →
    (work.runOn bench).1 = (work'.runOn bench').1 ∧
      Alike view (work.runOn bench).2 (work'.runOn bench').2

namespace Agree

theorem pure (a : α) : Agree view (pure a) (pure a) := fun _ _ h => ⟨rfl, h⟩

theorem fail (e : EmulationError) : Agree view (Work.fail e : Work σ α) (Work.fail e) :=
  fun _ _ h => ⟨rfl, h⟩

/-- Sequences agree if their parts do, whatever the first parts answer. -/
theorem bind {work work' : Work σ α} {next next' : α → Work σ β} (h : Agree view work work')
    (hnext : ∀ a, Agree view (next a) (next' a)) :
    Agree view (work >>= next) (work' >>= next') := by
  intro bench bench' halike
  obtain ⟨hresult, hleft⟩ := h bench bench' halike
  rw [runOn_bind, runOn_bind]
  generalize work.runOn bench = first at hresult hleft
  generalize work'.runOn bench' = first' at hresult hleft
  obtain ⟨result, after⟩ := first
  obtain ⟨result', after'⟩ := first'
  obtain rfl : result = result' := hresult
  cases result with
  | ok a => exact hnext a after after' hleft
  | error e => exact ⟨rfl, hleft⟩

theorem machine : Agree view (Work.machine : Work σ Machine) Work.machine := fun _ _ h =>
  ⟨congrArg Except.ok h.machine, h⟩

theorem say (line : String) : Agree view (Work.say line) (Work.say line) := fun _ _ h =>
  ⟨rfl, h.own, h.machine⟩

theorem setRegister (id : RegisterId) (value : UInt64) :
    Agree view (Work.setRegister id value) (Work.setRegister id value) := fun _ _ h =>
  ⟨rfl, h.own, congrArg (·.setRegister id value) h.machine⟩

/-- A question agrees with itself, since benches that are alike have one machine. -/
theorem ask (question : Machine → Except EmulationError α) :
    Agree view (Work.ask question) (Work.ask question) := by
  rintro ⟨own, s, log⟩ ⟨own', s', log'⟩ ⟨hown, hs⟩
  obtain rfl : s = s' := hs
  rw [runOn_ask, runOn_ask]
  exact ⟨rfl, hown, rfl⟩

/-- So does a change of the machine. -/
theorem change (step : Machine → Except EmulationError Machine) :
    Agree view (Work.change step) (Work.change step) := by
  rintro ⟨own, s, log⟩ ⟨own', s', log'⟩ ⟨hown, hs⟩
  obtain rfl : s = s' := hs
  cases hstep : step s with
  | ok after =>
      rw [runOn_change_of_ok hstep, runOn_change_of_ok hstep]
      exact ⟨rfl, hown, rfl⟩
  | error e =>
      rw [runOn_change_of_error hstep, runOn_change_of_error hstep]
      exact ⟨rfl, hown, rfl⟩

end Agree

end Work

open Work

/-! ## The stack machine -/

namespace StackMachine

/-- The stack machine without pending pops. -/
def settled (m : StackMachine) : StackMachine :=
  { m with pops := 0 }

/-- Own states that differ in their pops only. -/
theorem settled_eq_iff {m m' : StackMachine} :
    m.settled = m'.settled ↔ m' = { m with pops := m'.pops } := by
  constructor
  · intro h
    cases m
    cases m'
    cases h
    rfl
  · intro h
    rw [h]
    rfl

/-- Benches that are alike are one bench with two counts of pops and two logs. -/
theorem agree_of_forall_pops {work : Work StackMachine α}
    (h : ∀ own s log log' pops,
      (work.runOn ⟨own, s, log⟩).1 = (work.runOn ⟨{ own with pops }, s, log'⟩).1 ∧
        Alike settled (work.runOn ⟨own, s, log⟩).2 (work.runOn ⟨{ own with pops }, s, log'⟩).2) :
    Agree settled work work := by
  rintro ⟨own, s, log⟩ ⟨own', s', log'⟩ ⟨hown, hs⟩
  obtain rfl : s = s' := hs
  rw [show own' = { own with pops := own'.pops } from settled_eq_iff.mp hown]
  exact h own s log log' own'.pops

theorem agree_allocateChunk : Agree settled allocateChunk allocateChunk := by
  refine agree_of_forall_pops fun own s log log' pops => ?_
  cases hallocate : s.allocate own.nextChunk own.layout.chunkSize.toNat with
  | ok s' =>
      have hallocate' : s.allocate { own with pops }.nextChunk
          { own with pops }.layout.chunkSize.toNat = .ok s' := hallocate
      rw [allocateChunk_runOn hallocate, allocateChunk_runOn hallocate']
      exact ⟨rfl, rfl, rfl⟩
  | error e =>
      have hallocate' : s.allocate { own with pops }.nextChunk
          { own with pops }.layout.chunkSize.toNat = .error e := hallocate
      rw [allocateChunk_runOn_of_error hallocate, allocateChunk_runOn_of_error hallocate']
      exact ⟨rfl, rfl, rfl⟩

theorem agree_logOperation (pushed : Option Expr) :
    Agree settled (logOperation pushed) (logOperation pushed) := by
  refine agree_of_forall_pops fun own s log log' pops => ?_
  obtain ⟨_, _, hrun⟩ := logOperation_runOn pushed own s log
  obtain ⟨_, _, hrun'⟩ := logOperation_runOn pushed { own with pops } s log'
  rw [hrun, hrun']
  exact ⟨rfl, rfl, rfl⟩

/-- Counting pops, or taking a character, is not seen by what is behind the view. -/
theorem agree_update {f : StackMachine → StackMachine} {answer : StackMachine → α}
    (h : ∀ m pops,
      answer { m with pops } = answer m ∧ (f { m with pops }).settled = (f m).settled) :
    Agree settled
      (do
        let m ← Work.own
        Work.setOwn (f m)
        return answer m)
      (do
        let m ← Work.own
        Work.setOwn (f m)
        return answer m) :=
  agree_of_forall_pops fun own _ _ _ pops =>
    ⟨congrArg Except.ok (h own pops).1.symm, (h own pops).2.symm, rfl⟩

/-- Every handler agrees with itself: pops are counted for the log alone. -/
theorem agree_run (h : Handler) (args : List Expr) (values : List Int64) :
    Agree settled (h.run args values) (h.run args values) := by
  unfold Handler.run
  split
  · exact agree_update fun _ _ => ⟨rfl, rfl⟩
  · exact .pure 0
  · exact agree_allocateChunk.bind fun _ => (Agree.change _).bind fun _ =>
      (Agree.ask _).bind fun _ => (Agree.change _).bind fun _ => (Agree.change _).bind fun _ =>
        (Agree.say _).bind fun _ => (agree_logOperation _).bind fun _ => .pure 0
  · exact (Agree.ask _).bind fun _ => (Agree.ask _).bind fun _ => (Agree.ask _).bind fun _ =>
      (Agree.change _).bind fun _ => (Agree.say _).bind fun _ =>
        agree_update fun _ _ => ⟨rfl, rfl⟩
  · exact (Agree.ask _).bind fun _ => (Agree.ask _).bind fun _ => (Agree.say _).bind fun _ =>
      .pure _
  · exact (Agree.ask _).bind fun _ => (Agree.change _).bind fun _ => (Agree.say _).bind fun _ =>
      .pure _
  · exact (Agree.say _).bind fun _ => .pure 0
  · exact .pure 0

end StackMachine

/-! ## The chain -/

namespace Simulator

/-- Simulators that are the same once their pops are settled. -/
theorem settlePops_eq_cases {s s' : Simulator} (h : s.settlePops = s'.settlePops) :
    s = s' ∨ ∃ m m', s = .stackMachine m ∧ s' = .stackMachine m' ∧ m.settled = m'.settled := by
  cases s with
  | stackMachine m =>
      cases s' with
      | stackMachine m' => exact .inr ⟨m, m', rfl, rfl, stackMachine.inj h⟩
      | libc | scripted => cases h
  | libc | scripted =>
      cases s' <;> cases h
      exact .inl rfl

@[simp] theorem settlePops_settlePops (s : Simulator) : s.settlePops.settlePops = s.settlePops := by
  cases s <;> rfl

/-- What is demanded does not depend on the pops. -/
@[simp] theorem demand?_settlePops (s : Simulator) : s.settlePops.demand? = s.demand? := by
  cases s <;> rfl

/-- A chain in the view that hides pending pops. -/
def settledAll (chain : List Simulator) : List Simulator :=
  chain.map settlePops

/-- Results of simulators that are alike, where one recognises a call when the other does. -/
theorem respond?_agree {s s' : Simulator} (h : s.settlePops = s'.settlePops) (callee : String)
    (args : List Expr) (values : List Int64) (machine : Machine) (log log' : OutputLog) :
    (s.respond? callee args values machine log = none ∧
        s'.respond? callee args values machine log' = none) ∨
      ∃ result bench bench', Alike settlePops bench bench' ∧
        s.respond? callee args values machine log = some (result, bench) ∧
        s'.respond? callee args values machine log' = some (result, bench') := by
  rcases settlePops_eq_cases h with rfl | ⟨m, m', rfl, rfl, hm⟩
  · rcases s.respond?_steady callee args values machine with hpass |
      ⟨result, own, after, lines, _, hrun⟩
    · exact .inl ⟨hpass log, hpass log'⟩
    · exact .inr ⟨result, ⟨own, after, log.extend lines⟩, ⟨own, after, log'.extend lines⟩,
        ⟨rfl, rfl⟩, hrun log, hrun log'⟩
  · have hlayout : m.layout = m'.layout := congrArg (·.layout) hm
    cases hname : StackMachine.named? m.layout callee with
    | none => exact .inl ⟨by simp [respond?, hname], by simp [respond?, ← hlayout, hname]⟩
    | some f =>
        have hagree :=
          StackMachine.agree_run f args values ⟨m, machine, log⟩ ⟨m', machine, log'⟩ ⟨hm, rfl⟩
        cases hrun : (f.run args values).runOn ⟨m, machine, log⟩ with
        | mk result bench =>
          cases hrun' : (f.run args values).runOn ⟨m', machine, log'⟩ with
          | mk result' bench' =>
            rw [hrun, hrun'] at hagree
            obtain ⟨rfl, hown, hmachine⟩ := hagree
            exact .inr ⟨result, ⟨stackMachine bench.own, bench.machine, bench.log⟩,
              ⟨stackMachine bench'.own, bench'.machine, bench'.log⟩,
              ⟨congrArg stackMachine hown, hmachine⟩,
              by simp [respond?, hname, workAs, hrun],
              by simp [respond?, ← hlayout, hname, workAs, hrun']⟩

/-- **Chains agree.** Chains that differ in pending pops only give the same answer to a call. -/
theorem respondFirst_agree (callee : String) (args : List Expr) (values : List Int64)
    {chain chain' : List Simulator} (h : settledAll chain = settledAll chain') (machine : Machine)
    (log log' : OutputLog) :
    (respondFirst callee args values chain machine log).1 =
        (respondFirst callee args values chain' machine log').1 ∧
      Alike settledAll (respondFirst callee args values chain machine log).2
        (respondFirst callee args values chain' machine log').2 := by
  -- the first simulator that recognises the call stands at the same place of both chains
  induction chain generalizing chain' with
  | nil =>
      obtain rfl : chain' = [] := by simpa [settledAll] using h.symm
      exact ⟨rfl, rfl, rfl⟩
  | cons s rest ih =>
      cases chain' with
      | nil => cases h
      | cons s' rest' =>
          obtain ⟨hs, hrest⟩ := List.cons.inj h
          rcases respond?_agree hs callee args values machine log log' with ⟨hpass, hpass'⟩ |
            ⟨result, bench, bench', halike, hrespond, hrespond'⟩
          · obtain ⟨hresult, hown, hmachine⟩ := ih hrest
            rw [respondFirst, respondFirst, hpass, hpass']
            exact ⟨hresult, List.cons_eq_cons.mpr ⟨hs, hown⟩, hmachine⟩
          · rw [respondFirst, respondFirst, hrespond, hrespond']
            exact ⟨rfl, List.cons_eq_cons.mpr ⟨halike.own, hrest⟩, halike.machine⟩

end Simulator

end RoutineEmulator
