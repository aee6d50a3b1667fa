import RoutineEmulator.Proofs.Emulation.ChainReport
import RoutineEmulator.Proofs.Emulation.StepLimit
import RoutineEmulator.Proofs.Graph.Table
/-!
Calls of computed targets.

A computed call sets the next-handler register and leaves the routine only where nothing follows it.
Its edge is that of any other call, so a run goes on with the statement behind it, and what comes
there may set the register again.
-/

namespace RoutineEmulator.Emulator

open Work Evaluation

namespace Point

variable {settings : Settings} {r : Draft} {g : Graph} {p q : Point}

/-- The trace of a walk only grows. -/
theorem Reaches.trace_prefix (h : p.Reaches settings r g q) :
    p.trace.statements.toList <+: q.trace.statements.toList := by
  refine h.invariant (fun q => p.trace.statements.toList <+: q.trace.statements.toList)
    (List.prefix_refl _) ?_
  intro between q hbetween hadvance
  obtain ⟨_, id, step, _, _, _, _, rfl⟩ := advance?_eq_some_iff.mp hadvance
  refine hbetween.trans ?_
  show _ <+: (between.trace.statements.push _).toList
  rw [Array.toList_push]
  exact List.prefix_append _ _

/-- A walk that leaves the routine has visited the statement that it stood at. -/
theorem getElem?_statements_of_left {id : StmtId} (hcurrent : p.current = some id)
    (hleft : (p.walk settings r g).ending = .left) :
    (p.walk settings r g).trace.statements[p.trace.size]? = some (r.renderStmt id) := by
  obtain ⟨q, hadvance, hwalk⟩ := exists_advance_of_left hcurrent hleft
  rw [hwalk] at hleft ⊢
  obtain ⟨last, hreaches, hlast⟩ := exists_reaches_of_left hleft
  obtain ⟨more, hmore⟩ := hreaches.trace_prefix
  obtain ⟨_, other, step, _, _, hother, _, rfl⟩ := advance?_eq_some_iff.mp hadvance
  obtain rfl : id = other := Option.some.inj (hcurrent.symm.trans hother)
  rw [hlast, ← Array.getElem?_toList, ← hmore]
  show ((p.trace.statements.push (r.renderStmt id)).toList ++ more)[p.trace.statements.size]? = _
  rw [Array.toList_push, List.append_assoc,
    List.getElem?_append_right (Nat.le_of_eq Array.length_toList)]
  simp

/-- The points of a finished run lie on a walk that leaves the routine with its trace and its next
handler. -/
theorem walk_of_finished {entry : Graph → Option StmtId} {session after : Session}
    {trace : ExecutionTrace} (hbuild : Graph.build r = .ok g)
    (h : run settings r entry session = (.finished trace, after))
    (hreaches : (first settings r (entry g) session (settings.maxSteps.getD unlimited)).Reaches
      settings r g p) :
    (p.walk settings r g).ending = .left ∧
      trace.statements = (p.walk settings r g).trace.statements ∧
      trace.nextHandler =
        (p.walk settings r g).session.machine.register? Register.nextHandler := by
  rw [run_eq_walk_of_reaches hbuild entry session hreaches] at h
  obtain ⟨hleft, rfl⟩ := HandlerChain.ending_of_outcome (Prod.mk.inj h).1
  exact ⟨hleft, rfl, rfl⟩

end Point

/-- A computed call sets the register to the value of its call site, and control goes where it goes
behind any other call. -/
theorem advance_of_computedCall {settings : Settings} {r : Draft} {g : Graph} {p q : Point}
    {id : StmtId} {c : Call} (hcurrent : p.current = some id)
    (hstmt : r.stmt? id = some (.call c)) (hcallee : c.callee = none)
    (h : p.advance? settings r g = some q) :
    ∃ prepared evaluated target,
      (beforeStatement r id).runOn (announce settings (r.renderStmt id) p.session) =
        (.ok (), prepared) ∧
      (eval r c.callsite).runOn prepared = (.ok target, evaluated) ∧
      q.session.machine.register? Register.nextHandler = some target.toUInt64 ∧
      q.current = g.next id ∧ q.trace.size = p.trace.size + 1 := by
  obtain ⟨_, other, _, _, _, hother, hvisit, rfl⟩ := Point.advance?_eq_some_iff.mp h
  obtain rfl : id = other := Option.some.inj (hcurrent.symm.trans hother)
  -- a visit prepares, and then it executes the statement
  obtain ⟨_, prepared, hprepared, hexecute⟩ := exists_of_runOn_bind_eq_ok hvisit
  rw [hstmt] at hexecute
  obtain ⟨_, called, hcall, hstep⟩ := exists_of_runOn_bind_eq_ok hexecute
  cases hstep
  -- without a callee the value of the call site goes to the register
  unfold call callWith at hcall
  rw [hcallee] at hcall
  obtain ⟨target, evaluated, heval, hset⟩ := exists_of_runOn_bind_eq_ok hcall
  cases hset
  refine ⟨prepared, evaluated, target, hprepared, heval, ?_, rfl, Array.size_push _⟩
  exact Std.ExtTreeMap.getElem?_insert_self

/-- How a finished run goes on behind a computed call that it visits at a point. -/
structure GoesOn (settings : Settings) (r : Draft) (g : Graph) (p : Point) (id : StmtId) (c : Call)
    (trace : ExecutionTrace) (target : Int64) : Prop where
  visited : trace.statements[p.trace.size]? = some (r.renderStmt id)
  /-- The call site is evaluated once the simulators have prepared, and its value is what the
  next-handler register then holds. -/
  register : ∃ prepared evaluated q,
    (beforeStatement r id).runOn (announce settings (r.renderStmt id) p.session) =
      (.ok (), prepared) ∧
    (eval r c.callsite).runOn prepared = (.ok target, evaluated) ∧
    p.advance? settings r g = some q ∧
    q.session.machine.register? Register.nextHandler = some target.toUInt64
  /-- The call goes where any statement goes that does not jump. -/
  edge : ∀ path, r.Ancestors id path → g.next id = Graph.follow r id path
  /-- Where nothing follows it, the call is the last statement, and its value is handed on. -/
  last : g.next id = none →
    trace.size = p.trace.size + 1 ∧ trace.nextHandler = some target.toUInt64
  /-- Otherwise the statement that follows is visited next. -/
  onward : ∀ next, g.next id = some next →
    trace.statements[p.trace.size + 1]? = some (r.renderStmt next)

/-- **Computed calls go on.** In a finished emulation every computed call sets the next-handler
register to the value of its call site. Only where nothing follows it in its blocks does the call
end the run and decide its next handler; otherwise the run goes on with the statement that
follows. -/
theorem emulate_goes_on_behind_computed_call (settings : Settings) (r : Routine) (session : Session)
    {trace : ExecutionTrace} {after : Session}
    (h : emulate settings r session = (.finished trace, after)) :
    ∃ g, Graph.build r.toDraft = .ok g ∧ ∀ p id c,
      (Point.first settings r.toDraft g.entry session (settings.maxSteps.getD unlimited)).Reaches
        settings r.toDraft g p →
      p.current = some id → r.stmt? id = some (.call c) → c.callee = none →
      ∃ target, GoesOn settings r.toDraft g p id c trace target := by
  obtain ⟨g, -, hbuild, -⟩ := HandlerChain.exists_walk_of_finished h
  refine ⟨g, hbuild, fun p id c hreaches hcurrent hstmt hcallee => ?_⟩
  obtain ⟨hleft, hstatements, hhandler⟩ := Point.walk_of_finished hbuild h hreaches
  obtain ⟨q, hadvance, hwalk⟩ := Point.exists_advance_of_left hcurrent hleft
  obtain ⟨prepared, evaluated, target, hprepared, heval, hregister, hnext, hsize⟩ :=
    advance_of_computedCall hcurrent hstmt hcallee hadvance
  refine ⟨target, ?_, ⟨prepared, evaluated, q, hprepared, heval, hadvance, hregister⟩, ?_, ?_, ?_⟩
  · rw [hstatements]
    exact Point.getElem?_statements_of_left hcurrent hleft
  · intro path hpath
    rw [Graph.next_of_ancestors r.wellFormed hbuild hpath, Graph.fallthroughAt, hstmt]
  · -- the walk ends right behind the call
    intro hnone
    have hend : q.walk settings r.toDraft g = ⟨.left, q.trace, q.session⟩ :=
      Point.walk_of_none (hnext.trans hnone)
    rw [ExecutionTrace.size, hstatements, hhandler, hwalk, hend]
    exact ⟨hsize, hregister⟩
  · intro next hsome
    rw [hwalk] at hleft hstatements
    rw [hstatements, ← hsize]
    exact Point.getElem?_statements_of_left (hnext.trans hsome) hleft

/-- A computed call with a far jump behind it. -/
def passingDraft : Draft where
  name := "passing"
  address := 0x1000
  body := ⟨0⟩
  stmts := #[.block [⟨1⟩, ⟨2⟩], .call (.indirect (.ptr 0x401000) []), .jumpFar (.ptr 0x402000)]

def passingRoutine : Routine where
  toDraft := passingDraft
  valid := Draft.check_eq_ok_iff.mpr ⟨by decide, by decide, by decide, by decide⟩

/-- The run goes on from the call to the jump. -/
theorem emulate_goes_on_passing :
    ∃ trace after g p target,
      emulate {} passingRoutine ⟨[], .new {} (.new .little 64), {}⟩ = (.finished trace, after) ∧
      Graph.build passingDraft = .ok g ∧
      GoesOn {} passingDraft g p ⟨1⟩ (.indirect (.ptr 0x401000) []) trace target ∧
      trace.statements[1]? = some (passingDraft.renderStmt ⟨2⟩) := by
  obtain ⟨trace, after, hfinished⟩ : ∃ trace after,
      emulate {} passingRoutine ⟨[], .new {} (.new .little 64), {}⟩ = (.finished trace, after) :=
    ⟨_, _, rfl⟩
  obtain ⟨g, hbuild, hgoes⟩ := emulate_goes_on_behind_computed_call {} passingRoutine _ hfinished
  obtain rfl := Except.ok.inj (hbuild.symm.trans (rfl : Graph.build passingDraft = .ok _))
  obtain ⟨target, hcall⟩ := hgoes _ ⟨1⟩ _ .start rfl rfl rfl
  exact ⟨trace, after, _, _, target, hfinished, hbuild, hcall, hcall.onward ⟨2⟩ rfl⟩

/-- The call is not the last statement of its run, and its target is not the next handler. -/
theorem emulate_goes_on_overwritten :
    ∃ trace after,
      emulate {} passingRoutine ⟨[], .new {} (.new .little 64), {}⟩ = (.finished trace, after) ∧
      trace.statements[0]? = some (passingDraft.renderStmt ⟨1⟩) ∧ trace.size = 2 ∧
      trace.nextHandler = some 0x402000 :=
  ⟨_, _, rfl, rfl, rfl, rfl⟩

end RoutineEmulator.Emulator
