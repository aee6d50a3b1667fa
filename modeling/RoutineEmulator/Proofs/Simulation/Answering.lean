import RoutineEmulator.Emulation.Evaluation
import RoutineEmulator.Proofs.Simulation.Work
/-!
Which simulator answers a call.

A simulator answers exactly the calls that it demands arguments for. The first one of a chain that
does so answers alone: those before it let the call pass, and those behind it are not asked.
-/

namespace RoutineEmulator

namespace Simulator

variable {callee : String}

/-- A simulator answers, or fails to, the calls that it demands arguments for. -/
theorem isSome_respond? (s : Simulator) (callee : String) (args : List Expr) (values : List Int64)
    (machine : Machine) (log : OutputLog) :
    (s.respond? callee args values machine log).isSome = (s.demand? callee).isSome := by
  cases s with
  | libc | stackMachine => rw [respond?, demand?, Option.isSome_map, Option.isSome_map]
  | scripted script =>
      unfold respond? demand?
      dsimp only
      split
      · rfl
      · rw [Option.isSome_map, Option.isSome_map]

theorem respond?_eq_none {s : Simulator} (h : s.demand? callee = none) (args : List Expr)
    (values : List Int64) (machine : Machine) (log : OutputLog) :
    s.respond? callee args values machine log = none := by
  have hsome := isSome_respond? s callee args values machine log
  rw [h] at hsome
  exact Option.isNone_iff_eq_none.mp (Option.isSome_eq_false_iff.mp hsome)

section Passed

variable {before : List Simulator} (hbefore : ∀ s ∈ before, s.demand? callee = none)
include hbefore

theorem findSome?_demand?_of_passed (chain : List Simulator) :
    (before ++ chain).findSome? (·.demand? callee) = chain.findSome? (·.demand? callee) := by
  rw [List.findSome?_append, List.findSome?_eq_none_iff.mpr hbefore, Option.none_or]

/-- Simulators that let a call pass stay as they are. -/
theorem respondFirst_of_passed (args : List Expr) (values : List Int64) (chain : List Simulator)
    (machine : Machine) (log : OutputLog) :
    respondFirst callee args values (before ++ chain) machine log =
      ((respondFirst callee args values chain machine log).1,
        { (respondFirst callee args values chain machine log).2 with
          own := before ++ (respondFirst callee args values chain machine log).2.own }) := by
  induction before with
  | nil => rfl
  | cons s before ih =>
      have hpasses := respond?_eq_none (hbefore s List.mem_cons_self) args values machine log
      have hrest := ih fun s hs => hbefore s (List.mem_cons_of_mem _ hs)
      rw [List.cons_append, respondFirst, hpasses]
      dsimp only
      rw [hrest]
      rfl

end Passed

end Simulator

namespace Evaluation

open Work

/-- Where a simulator demands arguments for a call, these are evaluated, and then the chain is
asked. -/
theorem runOn_simulateWith {callee : Callee} {args : List Expr} {evalArgs : Nat → Run (List Int64)}
    {session : Session} {demand : Demand}
    (hdemand : session.own.findSome? (·.demand? (normalizeName callee.name)) = some demand) :
    (simulateWith callee args evalArgs).runOn session =
      match (evalArgs (demand.count args.length)).runOn session with
      | (.ok values, between) =>
        Simulator.respondFirst (normalizeName callee.name) args values between.own between.machine
          between.log
      | (.error e, between) => (.error e, between) := by
  obtain ⟨own, s, log⟩ := session
  unfold simulateWith
  dsimp only at hdemand
  rw [runOn_bind_of_ok runOn_own, hdemand]
  dsimp only
  rw [runOn_bind]
  obtain ⟨result, between⟩ := (evalArgs (demand.count args.length)).runOn ⟨own, s, log⟩
  cases result with
  | error e => rfl
  | ok values =>
      dsimp only
      rw [runOn_bind_of_ok (runOn_get between)]
      obtain ⟨result, after⟩ := Simulator.respondFirst (normalizeName callee.name) args values
        between.own between.machine between.log
      cases result <;> rfl

/-- Arguments have as many values as were asked for. -/
theorem length_of_evalArgs {r : Draft} {name : String} {args : List Expr} {index count : Nat}
    {values : List Int64} {session left : Session}
    (h : (evalArgs r name args index count).runOn session = (.ok values, left)) :
    values.length = count := by
  induction count generalizing args index values session with
  | zero =>
      rw [evalArgs] at h
      cases h
      rfl
  | succ count ih =>
      cases args with
      | nil =>
          rw [evalArgs] at h
          cases h
      | cons e rest =>
          rw [evalArgs] at h
          obtain ⟨value, between, _, h⟩ := exists_of_runOn_bind_eq_ok h
          obtain ⟨later, last, hlater, h⟩ := exists_of_runOn_bind_eq_ok h
          cases h
          rw [List.length_cons, ih hlater]

end Evaluation

end RoutineEmulator
