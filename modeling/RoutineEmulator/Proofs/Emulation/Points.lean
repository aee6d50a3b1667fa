import RoutineEmulator.Emulation.Emulator
/-!
The points that a walk comes through.

A walk is a run of visits, and a `Point` is where it stands between two of them. `Point.advance?`
makes one visit, `Reaches` is any number of them, and `Reaches.invariant` is the induction over a
walk: what holds where it starts and is kept by every visit holds wherever it comes.
-/

namespace RoutineEmulator.Emulator

/-- Where a walk stands: the visits that are left, the statement to visit next, and the trace and
the session so far. -/
structure Point where
  visits : Nat
  current : Option StmtId
  trace : ExecutionTrace
  session : Session

namespace Point

section

variable (settings : Settings) (r : Draft) (g : Graph)

/-- The walk from a point to its end. -/
def walk (p : Point) : Walk :=
  Emulator.walk settings r g p.visits p.current p.trace p.session

/-- The point after one more visit; none where the walk ends instead. -/
def advance? (p : Point) : Option Point :=
  match p.visits, p.current with
  | visits + 1, some id =>
    let text := r.renderStmt id
    let trace := { p.trace with statements := p.trace.statements.push text }
    match (visit r g id).runOn (announce settings text p.session) with
    | (.error _, _) => none
    | (.ok step, session) => some ⟨visits, step.next, record trace step, session⟩
  | _, _ => none

/-- The session in which the first statement is visited: the simulators were told of the routine,
and the log has the header of the trace. -/
def opened (session : Session) : Session :=
  let (simulators, log) := Simulator.beforeRoutineAll r.name session.own session.log
  let session : Session := ⟨simulators, session.machine, log⟩
  if settings.logTrace then { session with log := session.log.push traceHeader } else session

/-- The point where a routine is entered. -/
def first (entry : Option StmtId) (session : Session) (visits : Nat) : Point :=
  ⟨visits, entry, {}, opened settings r session⟩

/-- A walk from one point comes through another one. -/
inductive Reaches (start : Point) : Point → Prop
  | start : Reaches start start
  | advance {p q : Point} : Reaches start p → p.advance? settings r g = some q → Reaches start q

end

variable {settings : Settings} {r : Draft} {g : Graph} {p q : Point}

/-- What one visit does. -/
theorem advance?_eq_some_iff :
    p.advance? settings r g = some q ↔ ∃ visits id step session,
      p.visits = visits + 1 ∧ p.current = some id ∧
      (visit r g id).runOn (announce settings (r.renderStmt id) p.session) = (.ok step, session) ∧
      q = ⟨visits, step.next, record { p.trace with
        statements := p.trace.statements.push (r.renderStmt id) } step, session⟩ := by
  obtain ⟨visits, current, trace, session⟩ := p
  constructor
  · intro h
    unfold advance? at h
    split at h
    · rename_i visits' id hvisits hcurrent
      dsimp only at h
      split at h
      · cases h
      · rename_i step session' hrun
        exact ⟨visits', id, step, session', hvisits, hcurrent, hrun, (Option.some.inj h).symm⟩
    · cases h
  · rintro ⟨visits', id, step, session', rfl, rfl, hrun, rfl⟩
    unfold advance?
    dsimp only at hrun ⊢
    rw [hrun]

/-- A visit takes the first step of the walk. -/
theorem walk_of_advance (h : p.advance? settings r g = some q) :
    p.walk settings r g = q.walk settings r g := by
  obtain ⟨visits, id, step, session, hvisits, hcurrent, hrun, rfl⟩ := advance?_eq_some_iff.mp h
  unfold walk
  rw [hvisits, hcurrent, Emulator.walk]
  dsimp only
  rw [hrun]

/-- A point that a walk comes through has the same end before it. -/
theorem Reaches.walk_eq (h : p.Reaches settings r g q) :
    p.walk settings r g = q.walk settings r g := by
  induction h with
  | start => rfl
  | advance _ hadvance ih => rw [ih, walk_of_advance hadvance]

/-- What holds where a walk starts, and is kept by every visit, holds wherever the walk comes. -/
theorem Reaches.invariant (Inv : Point → Prop) (h : p.Reaches settings r g q) (hstart : Inv p)
    (hkept : ∀ p q, Inv p → p.advance? settings r g = some q → Inv q) : Inv q := by
  induction h with
  | start => exact hstart
  | advance _ hadvance ih => exact hkept _ _ ih hadvance

theorem Reaches.trans {start : Point} (h : start.Reaches settings r g p)
    (h' : p.Reaches settings r g q) : start.Reaches settings r g q := by
  induction h' with
  | start => exact h
  | advance _ hadvance ih => exact ih.advance hadvance

/-- What holds where a walk starts, and not where it comes to, is ended by one of its visits. -/
theorem Reaches.exists_change (P : Point → Prop) (h : p.Reaches settings r g q) (hstart : P p)
    (hend : ¬ P q) :
    ∃ before after, p.Reaches settings r g before ∧ before.advance? settings r g = some after ∧
      P before ∧ ¬ P after := by
  induction h with
  | start => exact absurd hstart hend
  | @advance between q hbetween hadvance ih =>
      by_cases hP : P between
      · exact ⟨between, q, hbetween, hadvance, hP, hend⟩
      · exact ih hP

/-- A walk that leaves the routine gets past the statement that it stands at. -/
theorem exists_advance_of_left {id : StmtId} (hcurrent : p.current = some id)
    (hleft : (p.walk settings r g).ending = .left) :
    ∃ q, p.advance? settings r g = some q ∧ p.walk settings r g = q.walk settings r g := by
  cases hadvance : p.advance? settings r g with
  | some q => exact ⟨q, rfl, walk_of_advance hadvance⟩
  | none =>
      -- without visits the walk is cut, and where the visit fails the walk does
      obtain ⟨visits, current, trace, session⟩ := p
      obtain rfl : current = some id := hcurrent
      unfold walk Emulator.walk at hleft
      unfold advance? at hadvance
      cases visits with
      | zero => cases hleft
      | succ visits =>
          dsimp only at hleft hadvance
          split at hleft
          · cases hleft
          · rename_i hrun
            rw [hrun] at hadvance
            cases hadvance

/-- A walk that leaves the routine comes to a point behind its last statement, with the trace and
the session of its end. -/
theorem exists_reaches_of_left (h : (p.walk settings r g).ending = .left) :
    ∃ q, p.Reaches settings r g q ∧ p.walk settings r g = ⟨.left, q.trace, q.session⟩ := by
  obtain ⟨visits, current, trace, session⟩ := p
  induction visits generalizing current trace session with
  | zero =>
      cases current with
      | none => exact ⟨_, .start, rfl⟩
      | some id => cases h
  | succ visits ih =>
      cases current with
      | none => exact ⟨_, .start, rfl⟩
      | some id =>
          obtain ⟨next, hadvance, hwalk⟩ := exists_advance_of_left rfl h
          rw [hwalk] at h ⊢
          obtain ⟨_, _, step, session', hvisits, _, _, rfl⟩ := advance?_eq_some_iff.mp hadvance
          obtain rfl := Nat.succ.inj hvisits
          obtain ⟨q, hreaches, hend⟩ := ih _ _ _ h
          exact ⟨q, (Reaches.start.advance hadvance).trans hreaches, hend⟩

/-- The points that are reached from where a routine is entered are those of its emulation: the walk
that is left from any of them gives the outcome. -/
theorem run_eq_walk_of_reaches (h : Graph.build r = .ok g) (entry : Graph → Option StmtId)
    (session : Session)
    (hreaches : (first settings r (entry g) session (settings.maxSteps.getD unlimited)).Reaches
      settings r g p) :
    run settings r entry session =
      (outcome settings (p.walk settings r g), (p.walk settings r g).session) := by
  rw [← hreaches.walk_eq]
  unfold run
  rw [h]
  rfl

end Point

end RoutineEmulator.Emulator
