import RoutineEmulator.Proofs.Emulation.Structured
import RoutineEmulator.Proofs.Graph.Table
import RoutineEmulator.Proofs.Simulation.Work
/-!
A walk over the graph runs the nested statements.

`walkOn` is the walk from a statement on, and `resume` says where a walk goes on after a statement
has run: what the signal of the statement means, given where control goes after it and the innermost
loop around it. The walk from a statement is the run of that statement, resumed; this is one
induction on the nesting, with an induction on the visits that are left inside it for loops.
-/

namespace RoutineEmulator.Structured

open RoutineEmulator.Emulator RoutineEmulator.Graph

/-! ## Visits are used up -/

/-- An interpreter adds no visits. -/
def Shrinks (run : Interpreter) : Prop :=
  ∀ progress, (run progress).2.visits ≤ progress.visits

section Shrinks

variable (settings : Settings) (r : Draft)

theorem shrinks_visiting {α : Type} (id : StmtId) (action : Run α) {next : α → Interpreter}
    (hnext : ∀ a, Shrinks (next a)) : Shrinks (visiting settings r id action next) := by
  rintro ⟨visits, trace, session⟩
  cases visits with
  | zero => exact Nat.le_refl 0
  | succ visits =>
      rw [visiting]
      split
      · exact Nat.le_succ visits
      · exact Nat.le_succ_of_le (hnext _ _)

theorem shrinks_sequence {runs : List Interpreter} (h : ∀ run ∈ runs, Shrinks run) :
    Shrinks (sequence runs) := by
  induction runs with
  | nil => exact fun progress => Nat.le_refl _
  | cons first rest ih =>
      obtain ⟨hfirst, hrest⟩ := List.forall_mem_cons.mp h
      intro progress
      have hle := hfirst progress
      rw [sequence]
      split
      · rename_i between hrun
        rw [hrun] at hle
        exact Nat.le_trans (ih hrest between) hle
      · exact hle

theorem shrinks_repeating (id : StmtId) (predicate : Expr) {body : Interpreter}
    (hbody : Shrinks body) (rounds : Nat) :
    Shrinks (repeating settings r id predicate body rounds) := by
  induction rounds with
  | zero => exact fun progress => Nat.le_refl _
  | succ rounds ih =>
      refine shrinks_visiting settings r id _ fun value progress => ?_
      have hle := hbody progress
      split
      · exact Nat.le_refl _
      · split <;> rename_i hrun <;> rw [hrun] at hle
        · exact Nat.le_trans (ih _) hle
        · exact Nat.le_trans (ih _) hle
        · exact hle
        · exact hle

theorem shrinks_interpret (depth : Nat) (id : StmtId) :
    Shrinks (interpret settings r depth id) := by
  induction depth generalizing id with
  | zero => exact fun progress => Nat.le_refl _
  | succ depth ih =>
      intro progress
      rw [interpret]
      split
      · refine shrinks_visiting settings r id _ (fun _ => shrinks_sequence ?_) progress
        intro run hrun
        obtain ⟨child, _, rfl⟩ := List.mem_map.mp hrun
        exact ih child
      · refine shrinks_visiting settings r id _ (fun chosen => ?_) progress
        cases chosen with
        | some block => exact ih block
        | none => exact fun progress => Nat.le_refl _
      · exact shrinks_repeating settings r id _ (ih _) _ progress
      · exact shrinks_visiting settings r id _ (fun _ progress => Nat.le_refl _) progress
      · exact Nat.le_refl _

end Shrinks

/-! ## Walks that go on -/

section Walking

variable (settings : Settings) (r : Draft) (g : Graph)

/-- The walk from a statement on. -/
def walkOn (current : Option StmtId) (progress : Progress) : Walk :=
  walk settings r g progress.visits current progress.trace progress.session

/-- The walk after a statement that handed on a signal. Control goes to `next` after the statement,
and `inner` is the innermost loop around it. -/
def resume (next : Option StmtId) (inner : Option LoopContext) : Signal × Progress → Walk
  | (.done, progress) => walkOn settings r g next progress
  | (.broke, progress) => walkOn settings r g (inner.bind (·.exit)) progress
  | (.continued, progress) => walkOn settings r g (inner.map (·.header)) progress
  | (.ended ending, progress) => ⟨ending, progress.trace, progress.session⟩

theorem walkOn_none (progress : Progress) :
    walkOn settings r g none progress = ⟨.left, progress.trace, progress.session⟩ := by
  obtain ⟨visits, trace, session⟩ := progress
  cases visits <;> rfl

/-- The session may come out of the action with this answer. -/
def CanAnswer {α : Type} (action : Run α) (a : α) : Prop :=
  ∃ session session', action.runOn session = (.ok a, session')

theorem canAnswer_of_bind {α β : Type} {work : Run β} {action : Run α} {session session' : Session}
    {a : α} (h : (work >>= fun _ => action).runOn session = (.ok a, session')) :
    CanAnswer action a := by
  rw [Work.runOn_bind] at h
  split at h
  · exact ⟨_, _, h⟩
  · cases h

variable {settings r g}

/-- A visit whose action is what the walk executes: the walk goes on as the visit does, where it
does so for every answer. -/
theorem walkOn_visiting {α : Type} {id : StmtId} {s : Stmt} {action : Run α} {stepOf : α → Step}
    {next : α → Interpreter} {after : Option StmtId} {inner : Option LoopContext}
    (hs : r.stmt? id = some s)
    (hexecute : execute r g id s = action >>= fun a => pure (stepOf a)) (progress : Progress)
    (hnext : ∀ a progress', progress'.visits < progress.visits → CanAnswer action a →
      walkOn settings r g (stepOf a).next
          { progress' with trace := record progress'.trace (stepOf a) } =
        resume settings r g after inner (next a progress')) :
    walkOn settings r g (some id) progress =
      resume settings r g after inner (visiting settings r id action next progress) := by
  obtain ⟨visits, trace, session⟩ := progress
  cases visits with
  | zero => rfl
  | succ visits =>
      -- both prepare and act alike, so they differ only in what follows the answer
      have hvisit : visit r g id = (do
          Evaluation.beforeStatement r id
          action) >>= fun a => pure (stepOf a) := by
        rw [visit, hs, bind_assoc]
        simp only [hexecute]
      rw [walkOn, walk, visiting, hvisit, Work.runOn_bind]
      dsimp only
      cases hrun : Work.runOn (do
          Evaluation.beforeStatement r id
          action) (announce settings (r.renderStmt id) session) with
      | mk result session' =>
          cases result with
          | error e => rfl
          | ok a =>
              exact hnext a ⟨visits, _, session'⟩ (Nat.lt_succ_self _) (canAnswer_of_bind hrun)

/-! ## Sequences and single statements -/

variable (settings r g) in
/-- The walk from a statement with these parents runs it, and goes on as its signal says. -/
def Simulates (id : StmtId) (path : List StmtId) (run : Interpreter) : Prop :=
  ∀ progress, walkOn settings r g (some id) progress =
    resume settings r g (follow r id path) (loopContext r path) (run progress)

/-- The walk through the statements of a block, from one of them on. -/
theorem walkOn_sequence (hr : r.WellFormed) {block : StmtId} {path : List StmtId}
    {run : StmtId → Interpreter} (before : List StmtId) {rest : List StmtId}
    (hblock : r.stmt? block = some (.block (before ++ rest)))
    (hrun : ∀ id ∈ rest, Simulates settings r g id (block :: path) (run id)) (progress : Progress) :
    walkOn settings r g (rest.head? <|> follow r block path) progress =
      resume settings r g (follow r block path) (loopContext r path)
        (sequence (rest.map run) progress) := by
  induction rest generalizing before progress with
  | nil => rfl
  | cons id rest ih =>
      have hfirst := hrun id List.mem_cons_self progress
      rw [follow_in_block hblock (hr.not_mem_before hblock),
        loopContext_in_block path hblock] at hfirst
      show walkOn settings r g (some id) progress = _
      rw [hfirst, List.map_cons, sequence]
      obtain ⟨signal, progress'⟩ := run id progress
      cases signal with
      | done =>
          exact ih (before ++ [id]) (by simpa using hblock)
            (fun other hother => hrun other (List.mem_cons_of_mem id hother)) progress'
      | broke | continued | ended => rfl

/-- Statements that run no nested statements. -/
def isSimple : Stmt → Bool
  | .block _ | .ifElse .. | .loop .. => false
  | _ => true

theorem interpret_of_isSimple {depth : Nat} {id : StmtId} {s : Stmt} (hs : r.stmt? id = some s)
    (hsimple : isSimple s = true) (progress : Progress) :
    interpret settings r (depth + 1) id progress =
      visiting settings r id (perform r id s) (fun returned progress =>
        (signalOf s, { progress with trace := returning returned progress.trace })) progress := by
  cases s with
  | block | ifElse | loop => cases hsimple
  | _ => simp only [interpret, hs]

theorem execute_of_isSimple {id : StmtId} {s : Stmt} (hsimple : isSimple s = true) :
    execute r g id s =
      perform r id s >>= fun returned => pure { next := g.next id, returned := returned } := by
  cases s with
  | block | ifElse | loop => cases hsimple
  | ret value => cases value <;> simp [execute, perform]
  | assign lhs rhs compound declare => cases compound <;> simp [execute, perform, Work.fail]
  | _ => simp [execute, perform, Work.fail]

/-- The fallthrough successor of a simple statement is where its signal leads. -/
theorem walkOn_fallthrough {id : StmtId} {path : List StmtId} {s : Stmt}
    (hs : r.stmt? id = some s) (hsimple : isSimple s = true) (hjumps : s.jumpTargets = [])
    (progress : Progress) :
    walkOn settings r g (fallthroughAt r id path) progress =
      resume settings r g (follow r id path) (loopContext r path) (signalOf s, progress) := by
  rw [fallthroughAt, hs]
  cases s with
  | block | ifElse | loop => cases hsimple
  | goto target => cases hjumps
  | ret | jumpFar => exact walkOn_none settings r g progress
  | breakLoop label =>
      cases label with
      | some target => cases hjumps
      | none =>
          rw [signalOf, resume, loopContext, Option.bind_map]
          rfl
  | continueLoop label =>
      cases label with
      | some target => cases hjumps
      | none =>
          rw [signalOf, resume, loopContext, Option.map_map]
          rfl
  | assign | label | call | decl | switch => rfl

/-! ## Choosing a block -/

theorem chooseBranch_eq_chooseBlock {default next : Option StmtId} {targets : List StmtId}
    (before : List Branch) {rest : List Branch}
    (htargets : targets = (before ++ rest).map (·.block) ++ default.toList) :
    (chooseBranch r rest before.length >>= fun chosen =>
        pure (chosen.elim (⟨default <|> next, none⟩ : Step) fun n => ⟨targets[n]?, none⟩)) =
      chooseBlock r default rest >>= fun chosen => pure ⟨chosen <|> next, none⟩ := by
  induction rest generalizing before with
  | nil => simp [chooseBranch, chooseBlock]
  | cons branch rest ih =>
      rw [chooseBranch, chooseBlock, bind_assoc, bind_assoc]
      refine bind_congr fun value => ?_
      by_cases hvalue : value = 0
      · have hrest := ih (before ++ [branch]) (by simpa using htargets)
        simpa [hvalue] using hrest
      · have htarget : targets[before.length]? = some branch.block := by simp [htargets]
        simp [hvalue, htarget]

/-- An `if` goes to the block of the first predicate that is not zero, else to its default, else on
with what comes after it. -/
theorem execute_branch (hr : r.WellFormed) (hbuild : build r = .ok g) {id : StmtId}
    {path : List StmtId} (hpath : r.Ancestors id path) {branches : List Branch}
    {default : Option StmtId} (hs : r.stmt? id = some (.ifElse branches default)) :
    execute r g id (.ifElse branches default) =
      chooseBlock r default branches >>= fun chosen =>
        pure { next := chosen <|> follow r id path } := by
  have htargets := nthNext_of_ancestors hr hbuild hpath hs
  have hnext : g.next id = follow r id path := by
    rw [next_of_ancestors hr hbuild hpath, fallthroughAt, hs]
  rw [← chooseBranch_eq_chooseBlock [] rfl, execute]
  refine bind_congr fun chosen => ?_
  cases chosen with
  | some n =>
      show pure (⟨g.nthNext id n, none⟩ : Step) = _
      rw [htargets]
      rfl
  | none => cases default <;> simp [htargets, hnext, targetsOf]

theorem mem_of_canAnswer_chooseBlock {default : Option StmtId} {branches : List Branch}
    {block : StmtId} (h : CanAnswer (chooseBlock r default branches) (some block)) :
    block ∈ branches.map (·.block) ++ default.toList := by
  induction branches with
  | nil =>
      obtain ⟨session, session', hrun⟩ := h
      obtain rfl : default = some block := Except.ok.inj (Prod.mk.inj hrun).1
      simp
  | cons branch rest ih =>
      obtain ⟨session, session', hrun⟩ := h
      rw [chooseBlock, Work.runOn_bind] at hrun
      split at hrun
      · rename_i value between _
        by_cases hvalue : value = 0
        · rw [if_neg (by simpa using hvalue)] at hrun
          exact List.mem_cons_of_mem _ (ih ⟨between, session', hrun⟩)
        · rw [if_pos hvalue] at hrun
          obtain rfl := Option.some.inj (Except.ok.inj (Prod.mk.inj hrun).1)
          exact List.mem_cons_self
      · cases hrun

/-! ## Nested statements -/

theorem simulates_simple (hr : r.WellFormed) (hbuild : build r = .ok g) {id : StmtId}
    {path : List StmtId} (hpath : r.Ancestors id path) {s : Stmt} (hs : r.stmt? id = some s)
    (hsimple : isSimple s = true) (hjumps : s.jumpTargets = []) (depth : Nat) :
    Simulates settings r g id path (interpret settings r (depth + 1) id) := by
  intro progress
  rw [interpret_of_isSimple hs hsimple]
  refine walkOn_visiting hs (execute_of_isSimple hsimple) progress ?_
  intro returned progress' _ _
  rw [next_of_ancestors hr hbuild hpath]
  exact walkOn_fallthrough hs hsimple hjumps _

theorem simulates_block (hr : r.WellFormed) (hbuild : build r = .ok g) {id : StmtId}
    {path : List StmtId} (hpath : r.Ancestors id path) {stmts : List StmtId} {depth : Nat}
    (hs : r.stmt? id = some (.block stmts))
    (hinside : ∀ child ∈ stmts,
      Simulates settings r g child (id :: path) (interpret settings r depth child)) :
    Simulates settings r g id path (interpret settings r (depth + 1) id) := by
  intro progress
  have hexecute : execute r g id (.block stmts) =
      pure () >>= fun _ => pure { next := g.next id } := rfl
  simp only [interpret, hs]
  refine walkOn_visiting hs hexecute progress ?_
  intro _ progress' _ _
  rw [next_of_ancestors hr hbuild hpath, fallthroughAt, hs]
  exact walkOn_sequence hr [] hs hinside progress'

theorem simulates_branch (hr : r.WellFormed) (hbuild : build r = .ok g) {id : StmtId}
    {path : List StmtId} (hpath : r.Ancestors id path) {branches : List Branch}
    {default : Option StmtId} {depth : Nat} (hs : r.stmt? id = some (.ifElse branches default))
    (hinside : ∀ child ∈ branches.map (·.block) ++ default.toList,
      Simulates settings r g child (id :: path) (interpret settings r depth child)) :
    Simulates settings r g id path (interpret settings r (depth + 1) id) := by
  intro progress
  simp only [interpret, hs]
  refine walkOn_visiting hs (execute_branch hr hbuild hpath hs) progress ?_
  intro chosen progress' _ hchosen
  cases chosen with
  | none => rfl
  | some block =>
      have hblock := hinside block (mem_of_canAnswer_chooseBlock hchosen) progress'
      rw [follow_in_branch hs, loopContext_in_branch hs] at hblock
      exact hblock

/-- The rounds of a loop. The body either leads back to the test, with fewer visits left, or hands
control elsewhere. -/
theorem simulates_repeating (hr : r.WellFormed) (hbuild : build r = .ok g) {id : StmtId}
    {path : List StmtId} (hpath : r.Ancestors id path) {kind : LoopKind} {predicate : Expr}
    {body : StmtId} {run : Interpreter} (hs : r.stmt? id = some (.loop kind predicate body))
    (hshrinks : Shrinks run) (hinside : Simulates settings r g body (id :: path) run)
    (rounds : Nat) (progress : Progress) (hvisits : progress.visits ≤ rounds) :
    walkOn settings r g (some id) progress =
      resume settings r g (follow r id path) (loopContext r path)
        (repeating settings r id predicate run rounds progress) := by
  induction rounds generalizing progress with
  | zero =>
      obtain ⟨visits, trace, session⟩ := progress
      obtain rfl : visits = 0 := Nat.le_zero.mp hvisits
      rfl
  | succ rounds ih =>
      have hnext : g.next id = follow r id path := by
        rw [next_of_ancestors hr hbuild hpath, fallthroughAt, hs]
      have hbody : g.nthNext id 0 = some body := nthNext_of_ancestors hr hbuild hpath hs 0
      rw [repeating]
      refine walkOn_visiting hs rfl progress ?_
      intro value progress' hless _
      dsimp only
      by_cases hvalue : value = 0
      · rw [if_neg (by simpa using hvalue), if_pos hvalue, hnext]
        rfl
      · -- the body leads back to the header, or out of the loop by a `break`
        have hround := hinside progress'
        rw [follow_in_loop hs, loopContext_in_loop hs] at hround
        rw [if_pos hvalue, if_neg hvalue, hbody]
        show walkOn settings r g (some body) progress' = _
        rw [hround]
        cases hrun : run progress' with
        | mk signal progress'' =>
            have hfewer : progress''.visits ≤ progress'.visits := by
              have hle := hshrinks progress'
              rw [hrun] at hle
              exact hle
            cases signal with
            | done | continued => exact ih progress'' (by omega)
            | broke | ended => rfl

/-- **The walk from a statement is the run of the statement.** The induction is on how deep the
statement may nest; the parents above it bound that. -/
theorem simulates_interpret (hr : r.WellFormed) (hbuild : build r = .ok g)
    (hjumps : ∀ id path s, r.Ancestors id path → r.stmt? id = some s → s.jumpTargets = [])
    (depth : Nat) {id : StmtId} {path : List StmtId} (hpath : r.Ancestors id path)
    (hdepth : r.size ≤ depth + path.length) :
    Simulates settings r g id path (interpret settings r depth id) := by
  induction depth generalizing id path with
  | zero =>
      have := hpath.length_lt hr
      omega
  | succ depth ih =>
      obtain ⟨s, hs⟩ := hpath.exists_stmt hr
      -- every child has one parent more, so it may nest one level less
      have hinside : ∀ child ∈ s.children,
          Simulates settings r g child (id :: path) (interpret settings r depth child) :=
        fun child hchild => ih (.child hpath hs hchild) (by rw [List.length_cons]; omega)
      cases s with
      | block stmts => exact simulates_block hr hbuild hpath hs hinside
      | ifElse branches default => exact simulates_branch hr hbuild hpath hs hinside
      | loop kind predicate body =>
          intro progress
          simp only [interpret, hs]
          exact simulates_repeating hr hbuild hpath hs (shrinks_interpret settings r depth body)
            (hinside body List.mem_cons_self) _ progress (Nat.le_refl _)
      | _ => exact simulates_simple hr hbuild hpath hs rfl (hjumps id path _ hpath hs) depth

end Walking

/-- After the body, control leaves the routine. -/
theorem resume_after_body {settings : Settings} {r : Draft} {g : Graph} (signal : Signal)
    (progress : Progress) :
    resume settings r g none none (signal, progress) =
      ⟨signal.ending, progress.trace, progress.session⟩ := by
  cases signal with
  | ended => rfl
  | done | broke | continued => exact walkOn_none settings r g progress

/-- **Emulation runs the nested statements.** A routine that has a graph, and whose body contains no
jump to a label, is emulated exactly as the structured interpreter runs it, under any settings and
on any session: with the same outcome and trace, and the same simulators, machine and log. -/
theorem emulate_eq_structured (r : Routine) (hbuild : ∃ g, build r.toDraft = .ok g)
    (hjumps : ∀ id path s, r.Ancestors id path → r.stmt? id = some s → s.jumpTargets = [])
    (settings : Settings) (session : Session) :
    Emulator.emulate settings r session = Structured.emulate settings r session := by
  obtain ⟨g, hbuild⟩ := hbuild
  have hr := r.wellFormed
  obtain ⟨stmts, hbody⟩ := hr.exists_body
  have hentry : g.entry = stmts.head? := by
    obtain ⟨_, _, hentry, _⟩ := build_eq_ok hbuild
    rw [hentry, Draft.entry?, Draft.bodyStmts, hbody]
  have hinside : ∀ id ∈ stmts, Simulates settings r.toDraft g id [r.body]
      (interpret settings r.toDraft r.size id) := fun id hid =>
    simulates_interpret hr hbuild hjumps r.size (.child .body hbody hid) (Nat.le_add_right _ _)
  have hwalk : ∀ start, walkOn settings r.toDraft g g.entry start =
      resume settings r.toDraft g none none
        (sequence (stmts.map (interpret settings r.toDraft r.size)) start) := by
    intro start
    have hfirst : (stmts.head? <|> follow r.toDraft r.body []) = g.entry := by
      rw [hentry]
      cases stmts <;> rfl
    rw [← hfirst]
    exact walkOn_sequence hr [] hbody hinside start
  unfold Emulator.emulate Emulator.run Structured.emulate
  rw [hbuild, Draft.bodyStmts, hbody]
  obtain ⟨simulators, log⟩ := Simulator.beforeRoutineAll r.name session.own session.log
  have hsession : (if settings.logTrace = true
      then (⟨simulators, session.machine, log.push traceHeader⟩ : Session)
      else ⟨simulators, session.machine, log⟩) =
      ⟨simulators, session.machine,
        if settings.logTrace = true then log.push traceHeader else log⟩ := by
    split <;> rfl
  have hstart := hwalk ⟨settings.maxSteps.getD unlimited, {},
    ⟨simulators, session.machine, if settings.logTrace = true then log.push traceHeader else log⟩⟩
  rw [walkOn] at hstart
  dsimp only at hstart ⊢
  rw [hsession, hstart]
  obtain ⟨signal, progress⟩ := sequence _ _
  rw [resume_after_body]

/-- A loop that is left from inside an `if`, with two simulators and a limit that does not cut. -/
theorem emulate_eq_structured_nested :
    Emulator.emulate { maxSteps := some 20 } nestedRoutine
        ⟨[.libc {}, .stackMachine {}], .new {} (.new .little 64), {}⟩ =
      Structured.emulate { maxSteps := some 20 } nestedRoutine
        ⟨[.libc {}, .stackMachine {}], .new {} (.new .little 64), {}⟩ :=
  have hjumps : ∀ s ∈ nestedDraft.stmts.toList, s.jumpTargets = [] := by decide
  emulate_eq_structured nestedRoutine ⟨_, rfl⟩
    (fun _ _ s _ hs => hjumps s (Draft.mem_of_stmt? hs)) _ _

end RoutineEmulator.Structured
