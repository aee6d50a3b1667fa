import RoutineEmulator.Proofs.Emulation.Courses
import RoutineEmulator.Proofs.Simulation.Answering
/-!
How a resolved call finds its simulator.

A simulator recognises calls by names that never change, whatever it does for a call. So the first
simulator that recognises a call when it is made is the one that answers once the arguments are
evaluated, although calls among them may be answered by the same chain. Those behind it play no
part, and a call that no simulator recognises is refused before anything happens.
-/

namespace RoutineEmulator

open Work

/-! ## Names -/

/-- A handler may change all of a stack machine but its layout. -/
def StackMachine.KeepsLayout (before after : Bench StackMachine) : Prop :=
  after.own.layout = before.own.layout

namespace StackMachine

theorem keepsLayout_course : Course KeepsLayout where
  refl _ := rfl
  trans h h' := h'.trans h

theorem keepsLayout_change (step : Machine → Except EmulationError Machine) :
    (change step : Work StackMachine Unit).Moves KeepsLayout :=
  keepsLayout_course.change fun _ _ _ _ _ => rfl

theorem keepsLayout_say (line : String) : (say line : Work StackMachine Unit).Moves KeepsLayout :=
  moves_say (fun _ _ => rfl) line

theorem keepsLayout_allocateChunk : allocateChunk.Moves KeepsLayout := by
  rintro ⟨own, s, log⟩
  unfold allocateChunk
  rw [runOn_bind_of_ok runOn_own, runOn_bind_of_ok (runOn_setOwn _)]
  exact keepsLayout_course.bind (keepsLayout_change _) (fun _ => keepsLayout_course.pure _)
    ⟨{ own with nextChunk := own.nextChunk + own.layout.chunkSize }, s, log⟩

theorem keepsLayout_logOperation (pushed : Option Expr) :
    (logOperation pushed).Moves KeepsLayout := by
  rintro ⟨own, s, log⟩
  unfold logOperation
  rw [runOn_bind_of_ok runOn_own]
  split
  · split
    · rfl
    · rfl
  · rfl

theorem keepsLayout_run (h : Handler) (args : List Expr) (values : List Int64) :
    (h.run args values).Moves KeepsLayout := by
  have hc := keepsLayout_course
  unfold Handler.run
  split
  · exact moves_update fun _ _ _ => rfl
  · exact hc.pure 0
  · exact hc.bind keepsLayout_allocateChunk fun _ => hc.bind (keepsLayout_change _) fun _ =>
      hc.bind (hc.ask _) fun _ => hc.bind (keepsLayout_change _) fun _ =>
        hc.bind (keepsLayout_change _) fun _ => hc.bind (keepsLayout_say _) fun _ =>
          hc.bind (keepsLayout_logOperation _) fun _ => hc.pure 0
  · exact hc.bind (hc.ask _) fun _ => hc.bind (hc.ask _) fun _ => hc.bind (hc.ask _) fun _ =>
      hc.bind (keepsLayout_change _) fun _ => hc.bind (keepsLayout_say _) fun _ =>
        moves_update fun _ _ _ => rfl
  · exact hc.bind (hc.ask _) fun _ => hc.bind (hc.ask _) fun _ =>
      hc.bind (keepsLayout_say _) fun _ => hc.pure _
  · exact hc.bind (hc.ask _) fun _ => hc.bind (keepsLayout_change _) fun _ =>
      hc.bind (keepsLayout_say _) fun _ => hc.pure _
  · exact hc.bind (keepsLayout_say _) fun _ => hc.pure 0
  · exact hc.pure 0

end StackMachine

namespace Simulator

variable {s : Simulator} {callee : String}

/-- The names of the calls that a simulator recognises. -/
def names : Simulator → List String
  | libc _ => ["time", "srand", "rand", "memcpy", "memset", "strlen"]
  | stackMachine m =>
    ["getchar", "putchar", m.layout.push, m.layout.pop, m.layout.get, m.layout.set, m.layout.swap]
  | scripted script => script.sums ++ script.answers.map Prod.fst

theorem names_of_layout {m m' : StackMachine} (h : m'.layout = m.layout) :
    (stackMachine m').names = (stackMachine m).names := by
  rw [names, names, h]

/-- Arguments are demanded for the calls with these names. -/
theorem demand?_eq_none_iff : s.demand? callee = none ↔ callee ∉ s.names := by
  cases s with
  | libc state =>
      rw [demand?, Option.map_eq_none_iff]
      unfold Libc.named?
      split <;> simp_all [names]
  | stackMachine m =>
      rw [demand?, Option.map_eq_none_iff, StackMachine.named?]
      repeat' split
      all_goals simp_all [names]
  | scripted script =>
      unfold demand? names
      dsimp only
      split
      · simp_all
      · simp_all only [List.contains_iff_mem, Option.map_eq_none_iff, List.lookup_eq_none_iff,
          List.mem_append, List.mem_map, false_or, not_exists, not_and]
        grind

theorem exists_respond? (h : callee ∈ s.names) (args : List Expr) (values : List Int64)
    (machine : Machine) (log : OutputLog) :
    ∃ result bench, s.respond? callee args values machine log = some (result, bench) := by
  have hsome := isSome_respond? s callee args values machine log
  have hdemand : s.demand? callee ≠ none := fun hnone => demand?_eq_none_iff.mp hnone h
  rw [Option.isSome_iff_ne_none.mpr hdemand] at hsome
  obtain ⟨⟨result, bench⟩, hrespond⟩ := Option.isSome_iff_exists.mp hsome
  exact ⟨result, bench, hrespond⟩

/-- Answering changes none of the names. -/
theorem names_of_respond? {args : List Expr} {values : List Int64} {machine : Machine}
    {log : OutputLog} {result : Except EmulationError Int64} {bench : Bench Simulator}
    (h : s.respond? callee args values machine log = some (result, bench)) :
    bench.own.names = s.names := by
  cases s with
  | libc state =>
      obtain ⟨f, _, h⟩ := Option.map_eq_some_iff.mp h
      cases h
      rfl
  | stackMachine m =>
      obtain ⟨f, _, h⟩ := Option.map_eq_some_iff.mp h
      have hlayout := StackMachine.keepsLayout_run f args values ⟨m, machine, log⟩
      cases h
      exact names_of_layout hlayout
  | scripted script =>
      unfold respond? at h
      dsimp only at h
      split at h
      · cases h
        rfl
      · obtain ⟨_, _, h⟩ := Option.map_eq_some_iff.mp h
        cases h
        rfl

theorem names_respondFirst (args : List Expr) (values : List Int64) (chain : List Simulator)
    (machine : Machine) (log : OutputLog) :
    (respondFirst callee args values chain machine log).2.own.map names = chain.map names := by
  induction chain with
  | nil => rfl
  | cons s rest ih =>
      rw [respondFirst]
      split
      · rename_i result bench hrespond
        show bench.own.names :: _ = s.names :: _
        rw [names_of_respond? hrespond]
      · exact congrArg (s.names :: ·) ih

end Simulator

/-! ## Calls in sequence -/

namespace Emulator

open Evaluation Simulator

/-- Each simulator of a chain keeps its names, whatever is evaluated. -/
theorem keepsNames_course : CallCourse fun before after : Session =>
    after.own.map names = before.own.map names where
  refl _ := rfl
  trans h h' := h'.trans h
  chain _ args values session := names_respondFirst args values session.own _ _
  result _ _ := rfl
  nextHandler _ _ := rfl

/-- The chain after the arguments were evaluated, cut where it was cut before: the simulators have
their places and their names, whatever else is different. -/
theorem exists_cut {before after : List Simulator} {s : Simulator} {chain : List Simulator}
    (h : chain.map names = (before ++ s :: after).map names) :
    ∃ before' s' after', chain = before' ++ s' :: after' ∧ before'.map names = before.map names ∧
      s'.names = s.names ∧ after'.map names = after.map names := by
  rw [List.map_append, List.map_cons] at h
  obtain ⟨before', rest, rfl, hbefore, hrest⟩ := List.map_eq_append_iff.mp h
  obtain ⟨s', after', rfl, hs, hafter⟩ := List.map_eq_cons_iff.mp hrest
  exact ⟨before', s', after', rfl, hbefore, hs, hafter⟩

end Emulator

namespace Evaluation

open Simulator Emulator

/-- How a call ends that is recognised between these simulators, and what it leaves.

The arguments are evaluated first, and what that leaves is cut at the same place. Then one simulator
answers, in its own state, and the chain comes to the same with any other simulators behind it. -/
inductive Answered (r : Draft) (callee : Callee) (args : List Expr) (before : List Simulator)
    (s : Simulator) (after : List Simulator) (session : Session) :
    Except EmulationError Int64 → Session → Prop
  /-- An argument fails, and no simulator is asked. -/
  | argument {demand : Demand} {e : EmulationError} {left : Session} :
      s.demand? (normalizeName callee.name) = some demand →
      (evalArgs r callee.name args 0 (demand.count args.length)).runOn session = (.error e, left) →
      Answered r callee args before s after session (.error e) left
  /-- The simulator answers, or it fails. -/
  | answer {demand : Demand} {values : List Int64} {before' after' : List Simulator}
      {s' : Simulator} {machine : Machine} {log : OutputLog}
      {result : Except EmulationError Int64} {bench : Bench Simulator} :
      s.demand? (normalizeName callee.name) = some demand →
      (evalArgs r callee.name args 0 (demand.count args.length)).runOn session =
        (.ok values, ⟨before' ++ s' :: after', machine, log⟩) →
      before'.map names = before.map names → s'.names = s.names →
      after'.map names = after.map names →
      s'.respond? (normalizeName callee.name) args values machine log = some (result, bench) →
      (∀ others, respondFirst (normalizeName callee.name) args values (before' ++ s' :: others)
        machine log = (result.map some, ⟨before' ++ bench.own :: others, bench.machine, bench.log⟩)) →
      Answered r callee args before s after session result
        ⟨before' ++ bench.own :: after', bench.machine, bench.log⟩

section

variable (r : Draft) (callee : Callee) (args : List Expr) {before after : List Simulator}
  {s : Simulator} {session : Session}

/-- The chain comes to an answer where it is first recognised, and that is what it says. -/
theorem exists_answered (hcut : session.own = before ++ s :: after)
    (hbefore : ∀ t ∈ before, normalizeName callee.name ∉ t.names)
    (hs : normalizeName callee.name ∈ s.names) :
    ∃ result left, Answered r callee args before s after session result left ∧
      (simulate r callee args).runOn session = (result.map some, left) := by
  obtain ⟨demand, hdemand⟩ := Option.ne_none_iff_exists'.mp
    fun hnone : s.demand? (normalizeName callee.name) = none => demand?_eq_none_iff.mp hnone hs
  have hfirst : session.own.findSome? (·.demand? (normalizeName callee.name)) = some demand := by
    rw [hcut, findSome?_demand?_of_passed fun t ht => demand?_eq_none_iff.mpr (hbefore t ht),
      List.findSome?_cons, hdemand]
  -- the names tell what the evaluation of the arguments leaves of the chain
  have hkept := (CallCourse.reads keepsNames_course.toCourse).evalArgs r callee.name args 0
    (demand.count args.length) (fun _ _ => .inr keepsNames_course.answers) session
  have hsimulate : (simulate r callee args).runOn session = _ := runOn_simulateWith hfirst
  rw [hsimulate]
  cases hrun : (evalArgs r callee.name args 0 (demand.count args.length)).runOn session with
  | mk outcome between =>
    cases outcome with
    | error e => exact ⟨.error e, between, .argument hdemand hrun, rfl⟩
    | ok values =>
        obtain ⟨chain, machine, log⟩ := between
        rw [hrun, hcut] at hkept
        obtain ⟨before', s', after', rfl, hnames, hname, hnames'⟩ := exists_cut hkept
        have hpassed : ∀ t ∈ before', t.demand? (normalizeName callee.name) = none := by
          intro t ht
          obtain ⟨t', ht', heq⟩ := List.mem_map.mp (hnames ▸ List.mem_map_of_mem ht)
          exact demand?_eq_none_iff.mpr (heq ▸ hbefore t' ht')
        obtain ⟨result, bench, hrespond⟩ := exists_respond? (hname ▸ hs) args values machine log
        have hanswer (others : List Simulator) :
            respondFirst (normalizeName callee.name) args values (before' ++ s' :: others)
              machine log = (result.map some, ⟨before' ++ bench.own :: others, bench.machine,
                bench.log⟩) := by
          rw [respondFirst_of_passed hpassed, respondFirst, hrespond]
        exact ⟨result, _, .answer hdemand hrun hnames hname hnames' hrespond hanswer,
          hanswer after'⟩

variable {callee} in
/-- A call that no simulator recognises finds the chain silent, and nothing was evaluated. -/
theorem runOn_simulateWith_of_unrecognised
    (h : ∀ t ∈ session.own, normalizeName callee.name ∉ t.names)
    (evalArgs : Nat → Run (List Int64)) :
    (simulateWith callee args evalArgs).runOn session = (.ok none, session) := by
  have hnone : session.own.findSome? (·.demand? (normalizeName callee.name)) = none :=
    List.findSome?_eq_none_iff.mpr fun t ht => demand?_eq_none_iff.mpr (h t ht)
  obtain ⟨own, machine, log⟩ := session
  unfold simulateWith
  rw [runOn_bind_of_ok runOn_own, hnone]
  rfl

end

/-- How a call ends, executed as a statement and evaluated as an expression. -/
inductive Returned (r : Draft) (c : Call) (session left : Session) :
    Except EmulationError Int64 → Prop
  /-- The answer is in the result register, and it is the value of the call. -/
  | answer {answer : Int64} {returned : Session} :
      returned = { left with machine := left.machine.setRegister Register.rax answer.toUInt64 } →
      returned.machine.register? Register.rax = some answer.toUInt64 →
      (call r c).runOn session = (.ok (), returned) →
      (eval r (.call c.callee c.callsite c.args)).runOn session = (.ok answer, returned) →
      Returned r c session left (.ok answer)
  | fault {e : EmulationError} :
      (call r c).runOn session = (.error e, left) →
      (eval r (.call c.callee c.callsite c.args)).runOn session = (.error e, left) →
      Returned r c session left (.error e)

/-- What a call does as an expression is what it does as a statement, and then its result is read. -/
theorem runOn_eval_call (r : Draft) (c : Call) (session : Session) :
    (eval r (.call c.callee c.callsite c.args)).runOn session =
      (call r c >>= fun _ => callResult).runOn session := by
  rw [eval]
  rfl

theorem returned_of_simulate {r : Draft} {callee : Callee} {site : Expr} {args : List Expr}
    {session left : Session} {result : Except EmulationError Int64}
    (h : (simulate r callee args).runOn session = (result.map some, left)) :
    Returned r ⟨some callee, site, args⟩ session left result := by
  cases result with
  | error e =>
      have hcall : (call r ⟨some callee, site, args⟩).runOn session = (.error e, left) :=
        runOn_bind_of_error h
      refine .fault hcall ?_
      rw [runOn_eval_call, runOn_bind_of_error hcall]
  | ok answer =>
      have hcall : (call r ⟨some callee, site, args⟩).runOn session = (.ok (),
          { left with machine := left.machine.setRegister Register.rax answer.toUInt64 }) :=
        runOn_bind_of_ok h
      have hstored : (left.machine.setRegister Register.rax answer.toUInt64).register?
          Register.rax = some answer.toUInt64 := Std.ExtTreeMap.getElem?_insert_self
      refine .answer rfl hstored hcall ?_
      rw [runOn_eval_call, runOn_bind_of_ok hcall]
      unfold callResult
      rw [runOn_bind_of_ok runOn_machine, hstored]
      simp

/-- **Calls are answered by the first simulator that recognises them.** Either no simulator of the
chain has the name of the callee, and then the call is refused with its text, whatever would
evaluate its arguments, and the session stays as it is. Or the chain has a first one that has it:
that one alone answers, and its answer is what the call returns. -/
theorem call_dispatches (r : Draft) (callee : Callee) (site : Expr) (args : List Expr)
    (session : Session) :
    ((∀ t ∈ session.own, normalizeName callee.name ∉ t.names) ∧
      (∀ evalSite evalArgs,
        (callWith r ⟨some callee, site, args⟩ evalSite evalArgs).runOn session =
          (.error (.unresolvedCallTarget (r.renderCall ⟨some callee, site, args⟩)), session)) ∧
      Returned r ⟨some callee, site, args⟩ session session
        (.error (.unresolvedCallTarget (r.renderCall ⟨some callee, site, args⟩)))) ∨
    ∃ before s after, session.own = before ++ s :: after ∧
      (∀ t ∈ before, normalizeName callee.name ∉ t.names) ∧ normalizeName callee.name ∈ s.names ∧
      ∃ result left, Answered r callee args before s after session result left ∧
        Returned r ⟨some callee, site, args⟩ session left result := by
  cases hfirst : session.own.find? (normalizeName callee.name ∈ ·.names) with
  | some s =>
    right
    obtain ⟨hs, before, after, hcut, hbefore⟩ := List.find?_eq_some_iff_append.mp hfirst
    have hbefore : ∀ t ∈ before, normalizeName callee.name ∉ t.names := by simpa using hbefore
    have hs : normalizeName callee.name ∈ s.names := of_decide_eq_true hs
    obtain ⟨result, left, hanswered, hsimulate⟩ := exists_answered r callee args hcut hbefore hs
    exact ⟨before, s, after, hcut, hbefore, hs, result, left, hanswered,
      returned_of_simulate hsimulate⟩
  | none =>
    left
    have hnone : ∀ t ∈ session.own, normalizeName callee.name ∉ t.names := by
      simpa using List.find?_eq_none.mp hfirst
    have hrefused (evalSite : Run Int64) (evalArgs : String → Nat → Run (List Int64)) :
        (callWith r ⟨some callee, site, args⟩ evalSite evalArgs).runOn session =
          (.error (.unresolvedCallTarget (r.renderCall ⟨some callee, site, args⟩)), session) := by
      unfold callWith
      dsimp only
      rw [runOn_bind_of_ok (runOn_simulateWith_of_unrecognised args hnone _)]
      rfl
    have hcall : (call r ⟨some callee, site, args⟩).runOn session = _ := hrefused _ _
    refine ⟨hnone, hrefused, .fault hcall ?_⟩
    rw [runOn_eval_call, runOn_bind_of_error hcall]

end Evaluation

end RoutineEmulator
