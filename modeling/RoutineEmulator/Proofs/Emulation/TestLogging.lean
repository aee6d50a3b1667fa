import RoutineEmulator.Proofs.Emulation.Agreement
import RoutineEmulator.Proofs.Emulation.Courses
import RoutineEmulator.Proofs.Emulation.Inspection
import RoutineEmulator.Proofs.Emulation.StepLimit
/-!
What logging a test does.

A stack machine with pending pops logs the test of the next two-way branch, and for that it
evaluates the test once more. Evaluating a test without calls changes nothing, so where all tests
that are logged have no calls, an emulation goes the same way with the hooks and without them. A
test with a call does its work twice: a character that it takes from the input is lost to the
routine.
-/

namespace RoutineEmulator.Emulator

open Work Evaluation Simulator

/-! ## The hook of one simulator -/

/-- The test that a stack machine logs before the statement, when pops are pending. -/
def LoggedTest (r : Draft) (id : StmtId) (test : Expr) : Prop :=
  ∃ predicate, (r.stmt? id).bind twoWayTest? = some (some predicate) ∧ testOf predicate = test ∧
    test.op? ≠ none

/-- A stack machine with pending pops stands at this place of the chain. -/
def PopsPending (session : Session) (place : Nat) : Prop :=
  ∃ m, session.own[place]? = some (.stackMachine m) ∧ m.pops ≠ 0

/-- No script stands in the chain, only libraries and stack machines. -/
def Unscripted (chain : List Simulator) : Prop :=
  ∀ script, .scripted script ∉ chain

theorem settledAll_modify (chain : List Simulator) (place : Nat) :
    settledAll (chain.modify place settlePops) = settledAll chain :=
  map_modify_settlePops settlePops_settlePops chain place

section

variable {r : Draft} {id : StmtId} {place : Nat} {session : Session}

/-- The hook of a stack machine with pending pops evaluates the test, then it logs a line for the
test and settles the pops. -/
theorem runOn_beforeStatementAt {m : StackMachine} {predicate : Expr} {o : Operator}
    {operands : List Expr} (hm : session.own[place]? = some (.stackMachine m)) (hpops : m.pops ≠ 0)
    (hpredicate : (r.stmt? id).bind twoWayTest? = some (some predicate))
    (hop : (testOf predicate).op? = some (o, operands)) :
    (beforeStatementAt r id place).runOn session =
      match (eval r (testOf predicate)).runOn session with
      | (.ok value, after) =>
        (.ok (), ⟨after.own.modify place settlePops, after.machine,
          after.log.push (testLine (testSymbol o (value != 0)) operands)⟩)
      | (.error e, after) => (.error e, after) := by
  obtain ⟨own, s, log⟩ := session
  unfold beforeStatementAt
  rw [runOn_bind_of_ok runOn_own]
  dsimp only at hm ⊢
  rw [hm]
  dsimp only
  rw [if_pos hpops, hpredicate]
  dsimp only
  unfold logTest
  dsimp only
  rw [hop]
  dsimp only
  cases heval : (eval r (testOf predicate)).runOn ⟨own, s, log⟩ with
  | mk result after =>
    cases result with
    | ok value =>
        rw [runOn_bind, runOn_bind_of_ok heval]
        rfl
    | error e => rw [runOn_bind, runOn_bind_of_error heval]

/-- Before a test that is logged the hook does what an evaluation of the test does. -/
theorem beforeStatementAt_of_logged {test : Expr} (hpending : PopsPending session place)
    (hlogged : LoggedTest r id test) :
    ((beforeStatementAt r id place).runOn session).1 =
        ((eval r test).runOn session).1.map (fun _ => ()) ∧
      Alike settledAll ((beforeStatementAt r id place).runOn session).2
        ((eval r test).runOn session).2 := by
  obtain ⟨m, hm, hpops⟩ := hpending
  obtain ⟨predicate, hpredicate, rfl, hop⟩ := hlogged
  obtain ⟨⟨o, operands⟩, hop⟩ := Option.ne_none_iff_exists'.mp hop
  rw [runOn_beforeStatementAt hm hpops hpredicate hop]
  cases (eval r (testOf predicate)).runOn session with
  | mk result after =>
    cases result with
    | ok value =>
        -- the line that is logged and the pops that are settled are both out of view
        exact ⟨rfl, settledAll_modify _ _, rfl⟩
    | error e => exact ⟨rfl, rfl, rfl⟩

/-- Where no pops are pending, or no test is to be logged, the hook settles pops at most. -/
theorem beforeStatementAt_of_quiet
    (hquiet : ∀ test, PopsPending session place → ¬ LoggedTest r id test)
    (hchain : ∀ script, session.own[place]? ≠ some (.scripted script)) :
    ((beforeStatementAt r id place).runOn session).1 = .ok () ∧
      Alike settledAll ((beforeStatementAt r id place).runOn session).2 session := by
  obtain ⟨own, s, log⟩ := session
  unfold beforeStatementAt
  rw [runOn_bind_of_ok runOn_own]
  dsimp only at hchain ⊢
  split
  · rename_i m hm
    split
    · rename_i hpops
      have hnone : ∀ test, ¬ LoggedTest r id test := fun test => hquiet test ⟨m, hm, hpops⟩
      split
      · rename_i test htest
        cases test with
        | none => exact ⟨rfl, settledAll_modify _ _, rfl⟩
        | some predicate =>
            have hop : (testOf predicate).op? = none :=
              Classical.byContradiction fun hop => hnone _ ⟨predicate, htest, rfl, hop⟩
            unfold logTest
            dsimp only
            rw [hop]
            exact ⟨rfl, settledAll_modify _ _, rfl⟩
      · exact ⟨rfl, .refl _ _⟩
    · exact ⟨rfl, .refl _ _⟩
  · rename_i script hscript
    exact absurd hscript (hchain script)
  · exact ⟨rfl, .refl _ _⟩

/-! ## Tests without calls -/

/-- A hook that fails does so as the test of its statement does. -/
def FailsWithTest (r : Draft) (id : StmtId) (session : Session) (e : EmulationError) : Prop :=
  ∃ test, LoggedTest r id test ∧ ((eval r test).runOn session).1 = .error e ∧ test.CallFree

/-- A computation before the statement that only observes: nothing but logs and pending pops are
different afterwards, and it fails only as the test of the statement does. -/
def Observes (r : Draft) (id : StmtId) (work : Run Unit) (session : Session) : Prop :=
  Alike settledAll (work.runOn session).2 session ∧
    ∀ e, (work.runOn session).1 = .error e → FailsWithTest r id session e

theorem FailsWithTest.congr {session' : Session} {e : EmulationError}
    (h : FailsWithTest r id session e) (halike : Alike settledAll session session') :
    FailsWithTest r id session' e := by
  obtain ⟨test, hlogged, heval, hfree⟩ := h
  exact ⟨test, hlogged, by rw [← heval, (agree_eval r test _ _ halike).1], hfree⟩

theorem Unscripted.of_alike {session' : Session} (h : Unscripted session.own)
    (halike : Alike settledAll session' session) : Unscripted session'.own := by
  intro script hmem
  have hview : Simulator.scripted script ∈ settledAll session.own := by
    rw [← halike.own]
    exact List.mem_map_of_mem hmem
  obtain ⟨s, hs, hsettle⟩ := List.mem_map.mp hview
  cases s with
  | scripted other => exact h other hs
  | libc | stackMachine => cases hsettle

/-- **Hooks observe.** A hook of a chain without scripts only observes, if the test of the statement
has no calls. -/
theorem beforeStatementAt_observes (htests : ∀ test, LoggedTest r id test → test.CallFree)
    (hchain : Unscripted session.own) (place : Nat) :
    Observes r id (beforeStatementAt r id place) session := by
  by_cases hlogs : PopsPending session place ∧ ∃ test, LoggedTest r id test
  · obtain ⟨hpending, test, hlogged⟩ := hlogs
    obtain ⟨hresult, halike⟩ := beforeStatementAt_of_logged hpending hlogged
    rw [eval_of_callFree (htests test hlogged)] at halike
    refine ⟨halike, fun e he => ⟨test, hlogged, ?_, htests test hlogged⟩⟩
    rw [hresult] at he
    cases heval : ((eval r test).runOn session).1 with
    | ok value =>
        rw [heval] at he
        cases he
    | error e' =>
        rw [heval] at he
        cases he
        rfl
  · have hquiet : ∀ test, PopsPending session place → ¬ LoggedTest r id test :=
      fun test hpending hlogged => hlogs ⟨hpending, test, hlogged⟩
    obtain ⟨hresult, halike⟩ := beforeStatementAt_of_quiet hquiet
      fun script hscript => hchain script (List.mem_of_getElem? hscript)
    refine ⟨halike, fun e he => ?_⟩
    rw [hresult] at he
    cases he

/-- Observing again and again is observing. -/
theorem beforeStatement_observes (htests : ∀ test, LoggedTest r id test → test.CallFree)
    (hchain : Unscripted session.own) : Observes r id (beforeStatement r id) session := by
  have hplaces : ∀ (places : List Nat) (session : Session), Unscripted session.own →
      Observes r id (places.forM (beforeStatementAt r id)) session := by
    intro places
    induction places with
    | nil => exact fun session _ => ⟨.refl _ _, fun _ he => by cases he⟩
    | cons place rest ih =>
        intro session hchain
        obtain ⟨halike, hfails⟩ := beforeStatementAt_observes htests hchain place
        show Observes r id (beforeStatementAt r id place >>= fun _ => _) session
        unfold Observes
        rw [runOn_bind]
        generalize (beforeStatementAt r id place).runOn session = first at halike hfails
        obtain ⟨result, after⟩ := first
        cases result with
        | error e => exact ⟨halike, hfails⟩
        | ok _ =>
            obtain ⟨halike', hfails'⟩ := ih after (hchain.of_alike halike)
            exact ⟨halike'.trans halike, fun e he => (hfails' e he).congr halike⟩
  obtain ⟨own, s, log⟩ := session
  unfold beforeStatement Observes
  rw [runOn_bind_of_ok runOn_own]
  exact hplaces _ _ hchain

end

/-! ## Visits without hooks -/

/-- A visit for which no simulator prepares. -/
def visitUnprepared (r : Draft) (g : Graph) (id : StmtId) : Run Step :=
  match r.stmt? id with
  | some s => execute r g id s
  | none => return { next := none }

/-- A branch fails as its first test does. -/
theorem visitUnprepared_of_failsWithTest {r : Draft} (g : Graph) {id : StmtId} {session : Session}
    {e : EmulationError} (h : FailsWithTest r id session e) :
    (visitUnprepared r g id).runOn session = (.error e, session) := by
  obtain ⟨test, ⟨predicate, hpredicate, rfl, -⟩, heval, hfree⟩ := h
  have hrun : (eval r (testOf predicate)).runOn session = (.error e, session) :=
    Prod.ext heval (eval_of_callFree hfree)
  have hpredicateRun : (eval r predicate).runOn session = (.error e, session) := by
    cases predicate with
    | predicate inner =>
        unfold eval
        exact runOn_bind_of_error hrun
    | int | ptr | ident | call | op => exact hrun
  obtain ⟨s, hs, hs'⟩ := Option.bind_eq_some_iff.mp hpredicate
  unfold visitUnprepared
  rw [hs]
  cases s with
  | ifElse branches default =>
      unfold twoWayTest? at hs'
      dsimp only at hs'
      split at hs'
      · obtain ⟨branch, hbranch, rfl⟩ := Option.map_eq_some_iff.mp (Option.some.inj hs')
        obtain ⟨rest, rfl⟩ := List.head?_eq_some_iff.mp hbranch
        have hchoose : (chooseBranch r (branch :: rest) 0).runOn session = (.error e, session) :=
          runOn_bind_of_error hpredicateRun
        exact runOn_bind_of_error hchoose
      · cases hs'
  | _ => cases hs'

/-- With the hooks and without them a visit gives the same step, and sessions that are alike. -/
theorem visit_agrees_unprepared {r : Draft} (g : Graph) {id : StmtId}
    (htests : ∀ test, LoggedTest r id test → test.CallFree) {session session' : Session}
    (hchain : Unscripted session.own) (halike : Alike settledAll session session') :
    ((visit r g id).runOn session).1 = ((visitUnprepared r g id).runOn session').1 ∧
      Alike settledAll ((visit r g id).runOn session).2
        ((visitUnprepared r g id).runOn session').2 := by
  obtain ⟨hobserved, hfails⟩ := beforeStatement_observes htests hchain
  show ((beforeStatement r id >>= fun _ => visitUnprepared r g id).runOn session).1 = _ ∧
    Alike settledAll ((beforeStatement r id >>= fun _ => visitUnprepared r g id).runOn session).2 _
  rw [runOn_bind]
  generalize (beforeStatement r id).runOn session = prepared at hobserved hfails
  obtain ⟨result, after⟩ := prepared
  cases result with
  | error e =>
      -- the hook failed on the test, so the branch would have failed on it
      rw [visitUnprepared_of_failsWithTest g ((hfails e rfl).congr halike)]
      exact ⟨rfl, hobserved.trans halike⟩
  | ok _ =>
      have hagree : Agree settledAll (visitUnprepared r g id) (visitUnprepared r g id) := by
        unfold visitUnprepared
        split
        · exact agree_execute g ‹_›
        · exact .pure _
      exact hagree after session' (hobserved.trans halike)

/-! ## Scripts -/

theorem mem_scripted_of_respond? {s : Simulator} {callee : String} {args : List Expr}
    {values : List Int64} {machine : Machine} {log : OutputLog}
    {result : Except EmulationError Int64} {bench : Bench Simulator} {script : Script}
    (h : s.respond? callee args values machine log = some (result, bench))
    (hscript : bench.own = .scripted script) : s = .scripted script := by
  cases s with
  | libc | stackMachine =>
      obtain ⟨_, _, h⟩ := Option.map_eq_some_iff.mp h
      cases h
      cases hscript
  | scripted other =>
      unfold respond? at h
      dsimp only at h
      split at h
      · cases h
        exact hscript
      · obtain ⟨_, _, h⟩ := Option.map_eq_some_iff.mp h
        cases h
        exact hscript

/-- An answer brings no script into the chain. -/
theorem mem_scripted_of_respondFirst {script : Script} (callee : String) (args : List Expr)
    (values : List Int64) {chain : List Simulator} {machine : Machine} {log : OutputLog}
    (h : .scripted script ∈ (respondFirst callee args values chain machine log).2.own) :
    .scripted script ∈ chain := by
  induction chain with
  | nil => exact h
  | cons s rest ih =>
      rw [respondFirst] at h
      split at h
      · rename_i result bench hrespond
        rcases List.mem_cons.mp h with hown | hrest
        · rw [mem_scripted_of_respond? hrespond hown.symm]
          exact List.mem_cons_self
        · exact List.mem_cons_of_mem s hrest
      · rcases List.mem_cons.mp h with rfl | hrest
        · exact List.mem_cons_self
        · exact List.mem_cons_of_mem s (ih hrest)

/-- A chain without scripts has none at any later time. -/
theorem unscripted_course (r : Draft) :
    SessionCourse r fun before after => Unscripted before.own → Unscripted after.own where
  refl _ := id
  trans h h' := h' ∘ h
  log _ _ := id
  chain callee args values _ h script hmem :=
    h script (mem_scripted_of_respondFirst callee args values hmem)
  settleAll session h := h.of_alike ⟨by simp [settledAll, Function.comp_def], rfl⟩
  settle place session h := h.of_alike ⟨settledAll_modify session.own place, rfl⟩
  result _ _ := id
  nextHandler _ _ := id
  write _ _ := id
  register _ _ _ _ := id

/-! ## Runs without hooks -/

/-- A walk whose statements are visited in a given way. -/
def walkBy (settings : Settings) (r : Draft) (visitor : StmtId → Run Step) :
    Nat → Option StmtId → ExecutionTrace → Session → Walk
  | _, none, trace, session => ⟨.left, trace, session⟩
  | 0, some _, trace, session => ⟨.cut, trace, session⟩
  | visits + 1, some id, trace, session =>
    let text := r.renderStmt id
    let trace := { trace with statements := trace.statements.push text }
    match (visitor id).runOn (announce settings text session) with
    | (.error e, session) => ⟨.failed e, trace, session⟩
    | (.ok step, session) => walkBy settings r visitor visits step.next (record trace step) session

/-- The walk of an emulation visits with the hooks. -/
theorem walkBy_visit (settings : Settings) (r : Draft) (g : Graph) (visits : Nat)
    (current : Option StmtId) (trace : ExecutionTrace) (session : Session) :
    walkBy settings r (visit r g) visits current trace session =
      walk settings r g visits current trace session := by
  induction visits generalizing current trace session with
  | zero => cases current <;> rfl
  | succ visits ih =>
      cases current with
      | none => rfl
      | some id =>
          rw [walkBy, walk]
          generalize (visit r g id).runOn _ = visited
          obtain ⟨result, after⟩ := visited
          cases result with
          | error e => rfl
          | ok step => exact ih step.next _ after

/-- Two ways to visit a statement lead walks to the same end, if on sessions that are related they
come to the same step and leave sessions that are related again. -/
theorem walkBy_agrees (settings : Settings) (r : Draft) (visitor visitor' : StmtId → Run Step)
    (related : Session → Session → Prop)
    (hvisit : ∀ id session session', related session session' →
      let visited := (visitor id).runOn (announce settings (r.renderStmt id) session)
      let visited' := (visitor' id).runOn (announce settings (r.renderStmt id) session')
      visited.1 = visited'.1 ∧ related visited.2 visited'.2)
    (visits : Nat) (current : Option StmtId) (trace : ExecutionTrace) {session session' : Session}
    (h : related session session') :
    let w := walkBy settings r visitor visits current trace session
    let w' := walkBy settings r visitor' visits current trace session'
    w.ending = w'.ending ∧ w.trace = w'.trace ∧ related w.session w'.session := by
  -- both walks have the same trace so far, and their sessions are related
  induction visits generalizing current trace session session' with
  | zero => cases current <;> exact ⟨rfl, rfl, h⟩
  | succ visits ih =>
      cases current with
      | none => exact ⟨rfl, rfl, h⟩
      | some id =>
          obtain ⟨hresult, hleft⟩ := hvisit id session session' h
          dsimp only
          rw [walkBy, walkBy]
          generalize (visitor id).runOn _ = first at hresult hleft
          generalize (visitor' id).runOn _ = first' at hresult hleft
          obtain ⟨result, after⟩ := first
          obtain ⟨result', after'⟩ := first'
          obtain rfl : result = result' := hresult
          cases result with
          | error e => exact ⟨rfl, rfl, hleft⟩
          | ok step => exact ih step.next _ hleft

/-- What a run does apart from its log: how it comes out, the statements that it visits, and the
session that it leaves. -/
structure Conduct where
  outcome : Outcome
  visited : Array String
  session : Session

/-- The conducts are the same, but for what is logged and for the pops that are pending. -/
structure Conduct.SameButLog (a b : Conduct) : Prop where
  outcome : a.outcome = b.outcome
  visited : a.visited = b.visited
  session : Alike settledAll a.session b.session

/-- The run of a routine. -/
def conduct (settings : Settings) (r : Draft) (entry : Graph → Option StmtId) (session : Session) :
    Conduct :=
  ⟨(run settings r entry session).1, visited settings r entry session,
    (run settings r entry session).2⟩

/-- The run of a routine where no hook comes before a statement. -/
def unhooked (settings : Settings) (r : Draft) (entry : Graph → Option StmtId)
    (session : Session) : Conduct :=
  match Graph.build r with
  | .error e => ⟨.failed e, #[], (run settings r entry session).2⟩
  | .ok g =>
    let w := walkBy settings r (visitUnprepared r g) (settings.maxSteps.getD unlimited) (entry g) {}
      (Point.opened settings r session)
    ⟨outcome settings w, w.trace.statements, w.session⟩

theorem alike_announce {session session' : Session} (settings : Settings) (text : String)
    (h : Alike settledAll session session') :
    Alike settledAll (announce settings text session) (announce settings text session') := by
  unfold announce
  split
  · exact ⟨h.own, h.machine⟩
  · exact h

/-- With the hooks and without them a walk comes to the same end, if the tests that are logged have
no calls. -/
theorem walk_agrees_unprepared (settings : Settings) {r : Draft} (g : Graph)
    (htests : ∀ id test, LoggedTest r id test → test.CallFree) (visits : Nat)
    (current : Option StmtId) (trace : ExecutionTrace) {session session' : Session}
    (hchain : Unscripted session.own) (halike : Alike settledAll session session') :
    let w := walk settings r g visits current trace session
    let w' := walkBy settings r (visitUnprepared r g) visits current trace session'
    w.ending = w'.ending ∧ w.trace = w'.trace ∧ Alike settledAll w.session w'.session := by
  have hcourse := unscripted_course r
  rw [← walkBy_visit]
  -- what is kept: the sessions are alike, and the first has no script in its chain
  have hends := walkBy_agrees settings r (visit r g) (visitUnprepared r g)
    (fun a b => Unscripted a.own ∧ Alike settledAll a b) ?visit visits current trace
    ⟨hchain, halike⟩
  case visit =>
    rintro id a b ⟨hchain, halike⟩
    have hannounced := hcourse.announce settings (r.renderStmt id) a hchain
    obtain ⟨hresult, hleft⟩ := visit_agrees_unprepared g (htests id) hannounced
      (alike_announce settings (r.renderStmt id) halike)
    exact ⟨hresult, hcourse.visit g id _ hannounced, hleft⟩
  obtain ⟨hending, htrace, -, hleft⟩ := hends
  exact ⟨hending, htrace, hleft⟩

theorem outcome_congr (settings : Settings) {w w' : Walk} (hending : w.ending = w'.ending)
    (htrace : w.trace = w'.trace) (hmachine : w.session.machine = w'.session.machine) :
    outcome settings w = outcome settings w' := by
  unfold outcome
  rw [hending, htrace, hmachine]

/-- **Runs without hooks.** -/
theorem conduct_unhooked {settings : Settings} {r : Draft}
    (htests : ∀ id test, LoggedTest r id test → test.CallFree) (entry : Graph → Option StmtId)
    {session : Session} (hchain : Unscripted session.own) :
    (conduct settings r entry session).SameButLog (unhooked settings r entry session) := by
  unfold conduct unhooked
  cases hbuild : Graph.build r with
  | error e =>
      refine ⟨(run_of_build_eq_error settings entry session hbuild).1, ?_, .refl _ _⟩
      rw [visited, hbuild]
  | ok g =>
      have hopened := (unscripted_course r).opened settings session hchain
      obtain ⟨hending, htrace, hleft⟩ := walk_agrees_unprepared settings g htests
        (settings.maxSteps.getD unlimited) (entry g) {} hopened (.refl _ _)
      rw [Point.run_eq_walk_of_reaches hbuild entry session .start, visited, hbuild]
      exact ⟨outcome_congr settings hending htrace hleft.machine, congrArg (·.statements) htrace,
        hleft⟩

/-- **What logging tests does.** Where pops are pending, the hook of a stack machine does exactly
what one more evaluation of the test does that it logs: it fails as that does, and leaves registers,
memory, allocators, characters and seeds as that leaves them. Where there is nothing to log it
changes none of them. So if the tests that a routine lets be logged have no calls, hooks change none
of them ever, and a run visits the same statements, comes out the same and ends with the same
machine and the same simulators as without hooks, from any entry. -/
theorem hooks_repeat_tests (settings : Settings) (r : Routine) :
    (∀ id place before test, PopsPending before place → LoggedTest r.toDraft id test →
      ((beforeStatementAt r.toDraft id place).runOn before).1 =
          ((eval r.toDraft test).runOn before).1.map (fun _ => ()) ∧
        Alike settledAll ((beforeStatementAt r.toDraft id place).runOn before).2
          ((eval r.toDraft test).runOn before).2) ∧
    (∀ id place before, (∀ test, PopsPending before place → ¬ LoggedTest r.toDraft id test) →
      (∀ script, before.own[place]? ≠ some (.scripted script)) →
      ((beforeStatementAt r.toDraft id place).runOn before).1 = .ok () ∧
        Alike settledAll ((beforeStatementAt r.toDraft id place).runOn before).2 before) ∧
    ((∀ id test, LoggedTest r.toDraft id test → test.CallFree) →
      (∀ id place before, Unscripted before.own →
        Alike settledAll ((beforeStatementAt r.toDraft id place).runOn before).2 before) ∧
      ∀ session, Unscripted session.own →
        (Conduct.mk (emulate settings r session).1 (visited settings r.toDraft (·.entry) session)
          (emulate settings r session).2).SameButLog
            (unhooked settings r.toDraft (·.entry) session) ∧
        ∀ entry, r.contains entry = true →
          (Conduct.mk (emulateFrom settings r entry session).1
            (visited settings r.toDraft (fun _ => some entry) session)
            (emulateFrom settings r entry session).2).SameButLog
              (unhooked settings r.toDraft (fun _ => some entry) session)) := by
  refine ⟨fun id place before test => beforeStatementAt_of_logged,
    fun id place before => beforeStatementAt_of_quiet, fun htests => ⟨?_, ?_⟩⟩
  · intro id place before hchain
    exact (beforeStatementAt_observes (htests id) hchain place).1
  · intro session hchain
    refine ⟨conduct_unhooked htests _ hchain, fun entry hentry => ?_⟩
    rw [emulateFrom, if_pos hentry]
    exact conduct_unhooked htests _ hchain

/-- A routine that pops a value and then branches on a test. -/
def pryDraft (test : Expr) : Draft where
  name := "pry"
  address := 0x1000
  body := ⟨0⟩
  stmts := #[
    .block [⟨1⟩, ⟨2⟩, ⟨5⟩],
    .call (.direct "sub_4009D7" none [.int 0]),
    .ifElse [⟨test, ⟨3⟩⟩] none,
    .block [⟨4⟩],
    .ret (some (.int 1)),
    .ret (some (.int 2))]

/-- The test whether a constant is another one. -/
def plainTest : Expr :=
  .op .eq [.int 97, .int 98]

/-- The test whether the next character of the input is the first one. -/
def takingTest : Expr :=
  .op .eq [.call (some { name := "getchar" }) (.int 0) [], .int 97]

def plainRoutine : Routine where
  toDraft := pryDraft plainTest
  valid := Draft.check_eq_ok_iff.mpr ⟨by decide, by decide, by decide, by decide⟩

def takingRoutine : Routine where
  toDraft := pryDraft takingTest
  valid := Draft.check_eq_ok_iff.mpr ⟨by decide, by decide, by decide, by decide⟩

/-- A stack machine over a memory of one page, with an empty list at its start. -/
def prySession : Session :=
  ⟨[.stackMachine {}], .new {} ((Memory.new .little 64).mapPages .readWrite [0]), {}⟩

theorem eq_of_loggedTest_pryDraft {id : StmtId} {test logged : Expr}
    (htest : testOf test = test) (h : LoggedTest (pryDraft test) id logged) : logged = test := by
  obtain ⟨predicate, hpredicate, rfl, _⟩ := h
  obtain ⟨s, hs, hs'⟩ := Option.bind_eq_some_iff.mp hpredicate
  have hmem := Draft.mem_of_stmt? hs
  simp only [pryDraft, List.mem_cons, List.not_mem_nil, or_false] at hmem
  rcases hmem with rfl | rfl | rfl | rfl | rfl | rfl
  case inr.inr.inl =>
    cases hs'
    exact htest
  all_goals cases hs'

/-- The pop is pending when the routine comes to its test, and the hook changes nothing. -/
theorem hooks_repeat_tests_plain :
    (emulate {} plainRoutine prySession).2.machine.register? Register.rax = some 2 ∧
    (unhooked {} plainRoutine.toDraft (·.entry) prySession).session.machine.register? Register.rax =
      some 2 := by
  obtain ⟨-, -, hfree⟩ := hooks_repeat_tests {} plainRoutine
  have htests : ∀ id test, LoggedTest plainRoutine.toDraft id test → test.CallFree := by
    intro id test hlogged
    rw [eq_of_loggedTest_pryDraft rfl hlogged]
    decide
  have hchain : Unscripted prySession.own := by
    intro script hmem
    cases hmem with
    | tail _ hmem => cases hmem
  have hmachine := ((hfree htests).2 prySession hchain).1.session.machine
  dsimp only at hmachine
  have hend : (emulate {} plainRoutine prySession).2.machine.register? Register.rax = some 2 := by
    decide +kernel
  exact ⟨hend, hmachine ▸ hend⟩

/-- A hook that takes a character for a test with a call: it sets the result register and advances
the input, so that the run goes another way than without hooks. -/
theorem hooks_repeat_tests_taking :
    let before : Session := { prySession with own := [.stackMachine { pops := 1 }] }
    let after := ((beforeStatementAt takingRoutine.toDraft ⟨2⟩ 0).runOn before).2
    before.machine.register? Register.rax = none ∧
    after.machine.register? Register.rax = some 97 ∧
    (∃ m, after.own = [.stackMachine m] ∧ m.currentChar = 98) ∧
    (emulate {} takingRoutine prySession).2.machine.register? Register.rax = some 2 ∧
    (unhooked {} takingRoutine.toDraft (·.entry) prySession).session.machine.register?
      Register.rax = some 1 := by
  refine ⟨rfl, rfl, ⟨_, rfl, rfl⟩, ?_, ?_⟩
  · decide +kernel
  · decide +kernel

end RoutineEmulator.Emulator
