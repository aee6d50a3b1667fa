import RoutineEmulator.Proofs.Emulation.Points
import RoutineEmulator.Proofs.Emulation.Rejection
import RoutineEmulator.Proofs.Emulation.Steady
/-!
The step limit only cuts a run.

Two walks from one point, with different numbers of visits, go the same way until the visits of the
shorter one are spent. `Point.walk_of_fewer` says this of walks: either the shorter one comes to the
same end, or it is cut where the longer one stands after as many visits. The main statement says it
of whole emulations with two limits.
-/

namespace RoutineEmulator.Emulator

/-- The settings with a limit on the visits of a routine. -/
def Settings.limited (settings : Settings) (limit : Nat) : Settings :=
  { settings with maxSteps := some limit }

namespace Point

/-- The point with another number of visits left. -/
def withVisits (p : Point) (visits : Nat) : Point :=
  { p with visits }

section

variable (settings : Settings) (r : Draft) (g : Graph)

/-- The point after so many more visits; none where the walk ends before. -/
def after? : Nat → Point → Option Point
  | 0, p => some p
  | n + 1, p => (p.advance? settings r g).bind (after? n)

end

variable {settings : Settings} {r : Draft} {g : Graph} {p q : Point}

/-! ## The end of a walk -/

theorem walk_of_none (h : p.current = none) :
    p.walk settings r g = ⟨.left, p.trace, p.session⟩ := by
  unfold walk Emulator.walk
  rw [h]

theorem walk_of_zero {id : StmtId} (hvisits : p.visits = 0) (h : p.current = some id) :
    p.walk settings r g = ⟨.cut, p.trace, p.session⟩ := by
  unfold walk Emulator.walk
  rw [h, hvisits]

/-- What a visit appends to the log, whatever comes of it. -/
theorem announce_log (settings : Settings) (text : String) (session : Session) :
    ∃ lines, announce settings text session =
      ⟨session.own, session.machine, session.log.extend lines⟩ := by
  unfold announce
  split
  · exact ⟨[" " ++ text], rfl⟩
  · exact ⟨[], rfl⟩

/-- How many visits are left does not change the next one. Either it leads on, to the same point, or
it fails and ends the walk, the same way and not for want of visits. Either way its statement is in
the trace, and the log has grown. -/
theorem advance_or_fail (settings : Settings) (r : Draft) (g : Graph) {id : StmtId}
    (h : p.current = some id) :
    (∃ q : Point, (∀ visits, (p.withVisits (visits + 1)).advance? settings r g =
        some (q.withVisits visits)) ∧
      q.trace.size = p.trace.size + 1 ∧ ∃ lines, q.session.log = p.session.log.extend lines) ∨
    ∃ (e : EmulationError) (w : Walk),
      (∀ visits, (p.withVisits (visits + 1)).walk settings r g = w) ∧
      w.ending = .failed e ∧ (∀ limit, e ≠ .stepLimitExceeded limit) ∧
      w.trace.size = p.trace.size + 1 ∧
      ∃ lines, w.session.log = p.session.log.extend lines := by
  obtain ⟨_, current, trace, session⟩ := p
  obtain rfl : current = some id := h
  obtain ⟨announced, hannounce⟩ := announce_log settings (r.renderStmt id) session
  obtain ⟨result, own', s', lines, hspares, hrun⟩ :=
    steady_visit r g id session.own session.machine
  have hvisit : (visit r g id).runOn (announce settings (r.renderStmt id) session) =
      (result, ⟨own', s', session.log.extend (announced ++ lines)⟩) := by
    rw [hannounce, hrun, OutputLog.extend_extend]
  cases result with
  | ok step =>
      left
      refine ⟨⟨0, step.next, record
        { trace with statements := trace.statements.push (r.renderStmt id) } step,
        ⟨own', s', session.log.extend (announced ++ lines)⟩⟩, ?_, ?_, _, rfl⟩
      · intro visits
        unfold advance? withVisits
        dsimp only
        rw [hvisit]
      · simp [record, ExecutionTrace.size]
  | error e =>
      right
      refine ⟨e, ⟨.failed e,
        { trace with statements := trace.statements.push (r.renderStmt id) },
        ⟨own', s', session.log.extend (announced ++ lines)⟩⟩, ?_, rfl,
        SparesLimit.error_iff.mp hspares, ?_, _, rfl⟩
      · intro visits
        unfold walk withVisits Emulator.walk
        dsimp only
        rw [hvisit]
      · simp [ExecutionTrace.size]

/-- How the end of a walk extends the point it comes from: trace and log only grow, and a fault is
not that of a limit. -/
structure Extends (p : Point) (visits : Nat) (w : Walk) : Prop where
  trace : p.trace.size ≤ w.trace.size
  visited : p.current ≠ none → visits ≠ 0 → p.trace.size < w.trace.size
  faults : ∀ e, w.ending = .failed e → ∀ limit, e ≠ .stepLimitExceeded limit
  log : ∃ lines, w.session.log = p.session.log.extend lines

theorem walk_extends (settings : Settings) (r : Draft) (g : Graph) (visits : Nat) (p : Point) :
    p.Extends visits ((p.withVisits visits).walk settings r g) := by
  induction visits generalizing p with
  | zero =>
      cases hcurrent : p.current with
      | none =>
          rw [walk_of_none (p := p.withVisits 0) hcurrent]
          exact ⟨Nat.le_refl _, by simp, by simp, [], rfl⟩
      | some id =>
          rw [walk_of_zero (p := p.withVisits 0) rfl hcurrent]
          exact ⟨Nat.le_refl _, by simp, by simp, [], rfl⟩
  | succ visits ih =>
      cases hcurrent : p.current with
      | none =>
          rw [walk_of_none (p := p.withVisits (visits + 1)) hcurrent]
          exact ⟨Nat.le_refl _, by simp [hcurrent], by simp, [], rfl⟩
      | some id =>
          rcases advance_or_fail settings r g hcurrent with
            ⟨q, hadvance, hsize, lines, hlog⟩ | ⟨e, w, hwalk, hending, hspares, hsize, hlog⟩
          · rw [walk_of_advance (hadvance visits)]
            obtain ⟨htrace, _, hfaults, more, hmore⟩ := ih q
            refine ⟨by omega, fun _ _ => by omega, hfaults, lines ++ more, ?_⟩
            rw [hmore, hlog, OutputLog.extend_extend]
          · rw [hwalk visits]
            refine ⟨by omega, fun _ _ => by omega, ?_, hlog⟩
            intro e' he'
            obtain rfl : e = e' := Ending.failed.inj (hending.symm.trans he')
            exact hspares

/-! ## Two numbers of visits -/

/-- **Fewer visits only cut a walk.** A walk with fewer visits comes to the same end within them, or
it is cut at the point that the longer walk has after as many visits, with a statement to go on
with. -/
theorem walk_of_fewer (settings : Settings) (r : Draft) (g : Graph) {n m : Nat} (hle : n ≤ m)
    (p : Point) :
    ((p.withVisits n).walk settings r g = (p.withVisits m).walk settings r g ∧
      ((p.withVisits m).walk settings r g).ending ≠ .cut ∧
      ((p.withVisits m).walk settings r g).trace.size ≤ p.trace.size + n) ∨
    ∃ q : Point, (p.withVisits m).after? settings r g n = some (q.withVisits (m - n)) ∧
      q.current ≠ none ∧ q.trace.size = p.trace.size + n ∧
      (p.withVisits n).walk settings r g = ⟨.cut, q.trace, q.session⟩ ∧
      (p.withVisits m).walk settings r g = (q.withVisits (m - n)).walk settings r g := by
  induction n generalizing m p with
  | zero =>
      cases hcurrent : p.current with
      | none =>
          left
          rw [walk_of_none (p := p.withVisits 0) hcurrent,
            walk_of_none (p := p.withVisits m) hcurrent]
          exact ⟨rfl, by simp, Nat.le_refl _⟩
      | some id =>
          right
          exact ⟨p, rfl, by simp [hcurrent], rfl, walk_of_zero rfl hcurrent, rfl⟩
  | succ n ih =>
      obtain ⟨m, rfl⟩ : ∃ k, m = k + 1 := ⟨m - 1, by omega⟩
      cases hcurrent : p.current with
      | none =>
          left
          rw [walk_of_none (p := p.withVisits (n + 1)) hcurrent,
            walk_of_none (p := p.withVisits (m + 1)) hcurrent]
          exact ⟨rfl, by simp, Nat.le_add_right _ _⟩
      | some id =>
          rcases advance_or_fail settings r g hcurrent with
            ⟨next, hadvance, hsize, _⟩ | ⟨e, w, hwalk, hending, _, hsize, _⟩
          · rw [walk_of_advance (hadvance n), walk_of_advance (hadvance m)]
            rcases ih (Nat.le_of_succ_le_succ hle) next with
              ⟨heq, hends, hbound⟩ | ⟨q, hafter, hgoes, hq, hshort, hlong⟩
            · exact .inl ⟨heq, hends, by omega⟩
            · right
              have hsub : m + 1 - (n + 1) = m - n := by omega
              rw [hsub]
              refine ⟨q, ?_, hgoes, by omega, hshort, hlong⟩
              rw [after?, hadvance m]
              exact hafter
          · left
            rw [hwalk n, hwalk m, hending]
            exact ⟨rfl, by simp, by omega⟩

end Point

/-! ## Two limits -/

section Limits

/-- The texts of the statements that a run visits, one whose visit fails included. A routine without
a graph is not visited. -/
def visited (settings : Settings) (r : Draft) (entry : Graph → Option StmtId) (session : Session) :
    Array String :=
  match Graph.build r with
  | .error _ => #[]
  | .ok g => ((Point.first settings r (entry g) session (settings.maxSteps.getD unlimited)).walk
      settings r g).trace.statements

/-- The session of a run after so many visits; none where the run ends before. -/
def sessionAfter? (settings : Settings) (r : Draft) (entry : Graph → Option StmtId)
    (session : Session) (visits : Nat) : Option Session :=
  match Graph.build r with
  | .error _ => none
  | .ok g => ((Point.first settings r (entry g) session (settings.maxSteps.getD unlimited)).after?
      settings r g visits).map (·.session)

/-- The run `short` with at most `n` visits is the run `long` with at most `m` visits, cut off after
`n` of them. -/
structure Curtails (settings : Settings) (r : Draft) (entry : Graph → Option StmtId)
    (session : Session) (n m : Nat) (short long : Outcome × Session) : Prop where
  /-- A run that ends by itself, within the shorter limit, is the same under both. -/
  ends : (∀ limit, long.1 ≠ .failed (.stepLimitExceeded limit)) →
    (visited (settings.limited m) r entry session).size ≤ n →
    short = long ∧
      visited (settings.limited n) r entry session = visited (settings.limited m) r entry session
  /-- A run that ends by itself, but later, stops under the shorter limit where it then stood. -/
  stops : (∀ limit, long.1 ≠ .failed (.stepLimitExceeded limit)) →
    n < (visited (settings.limited m) r entry session).size →
    short.1 = .failed (.stepLimitExceeded n) ∧
      sessionAfter? (settings.limited m) r entry session n = some short.2
  /-- A run that the longer limit stops is stopped by the shorter one, and had logged no more. -/
  stopped : long.1 = .failed (.stepLimitExceeded m) →
    short.1 = .failed (.stepLimitExceeded n) ∧
      short.2.log.lines.toList <+: long.2.log.lines.toList

variable {settings : Settings} {r : Draft} {g : Graph}

theorem spares_of_build {e : EmulationError} (hr : r.WellFormed) (h : Graph.build r = .error e)
    (limit : Nat) : e ≠ .stepLimitExceeded limit := by
  obtain ⟨_, _, _, _, _, hrefused, _⟩ :=
    Graph.firstRefusal?_eq_some_iff.mp ((Graph.build_eq_error_iff hr).mp h)
  cases hrefused <;> simp

/-- A limit tells how many visits a walk starts with, and nothing else. -/
theorem walk_limited (limit : Nat) (p : Point) :
    p.walk (settings.limited limit) r g = p.walk settings r g := by
  obtain ⟨visits, current, trace, session⟩ := p
  unfold Point.walk
  dsimp only
  induction visits generalizing current trace session with
  | zero => cases current <;> rfl
  | succ visits ih =>
      cases current with
      | none => rfl
      | some id =>
          unfold walk
          have hannounce : announce (settings.limited limit) = announce settings := rfl
          simp only [hannounce, ih]

theorem after?_limited (limit : Nat) (p : Point) (visits : Nat) :
    p.after? (settings.limited limit) r g visits = p.after? settings r g visits := by
  induction visits generalizing p with
  | zero => rfl
  | succ visits ih =>
      have hadvance : p.advance? (settings.limited limit) r g = p.advance? settings r g := rfl
      rw [Point.after?, Point.after?, hadvance, funext ih]

/-- A run with a limit is the walk with so many visits, from where the routine is entered. -/
theorem run_limited (hbuild : Graph.build r = .ok g) {entry : Graph → Option StmtId}
    {session : Session} {start : Point} (hstart : start = .first settings r (entry g) session 0)
    (limit : Nat) :
    run (settings.limited limit) r entry session =
        (outcome (settings.limited limit) ((start.withVisits limit).walk settings r g),
          ((start.withVisits limit).walk settings r g).session) ∧
      visited (settings.limited limit) r entry session =
        ((start.withVisits limit).walk settings r g).trace.statements ∧
      ∀ visits, sessionAfter? (settings.limited limit) r entry session visits =
        ((start.withVisits limit).after? settings r g visits).map (·.session) := by
  subst hstart
  refine ⟨?_, ?_, ?_⟩
  · rw [Point.run_eq_walk_of_reaches hbuild entry session .start, walk_limited]
    rfl
  · rw [visited, hbuild]
    dsimp only
    rw [walk_limited]
    rfl
  · intro visits
    rw [sessionAfter?, hbuild]
    dsimp only
    rw [after?_limited]
    rfl

theorem outcome_limited_of_ne_cut {w : Walk} (h : w.ending ≠ .cut) (n m : Nat) :
    outcome (settings.limited n) w = outcome (settings.limited m) w := by
  unfold outcome
  cases hending : w.ending with
  | left => rfl
  | failed e => rfl
  | cut => exact absurd hending h

/-- A run ends for want of visits exactly where its walk is cut. -/
theorem outcome_limited_eq_iff {p : Point} {visits n : Nat} {w : Walk} (h : p.Extends visits w)
    (limit : Nat) :
    outcome (settings.limited n) w = .failed (.stepLimitExceeded limit) ↔
      w.ending = .cut ∧ limit = n := by
  unfold outcome
  cases hending : w.ending with
  | left => simp
  | failed e => simpa using h.faults e hending limit
  | cut => simp [Settings.limited, eq_comm]

/-- **Two limits.** -/
theorem curtails_run (settings : Settings) (hr : r.WellFormed) (entry : Graph → Option StmtId)
    (session : Session) {n m : Nat} (hle : n ≤ m) :
    Curtails settings r entry session n m (run (settings.limited n) r entry session)
      (run (settings.limited m) r entry session) := by
  cases hbuild : Graph.build r with
  | error e =>
      -- nothing is visited, and both runs fail as the graph did
      have hvisited : ∀ limit, visited (settings.limited limit) r entry session = #[] := by
        intro limit
        rw [visited, hbuild]
      have hlong := (run_of_build_eq_error (settings.limited m) entry session hbuild).1
      refine ⟨fun _ _ => ⟨?_, by rw [hvisited, hvisited]⟩, ?_, ?_⟩
      · unfold run
        rw [hbuild]
      · intro _ hmore
        rw [hvisited] at hmore
        cases hmore
      · intro hcut
        rw [hlong] at hcut
        exact absurd (Outcome.failed.inj hcut) (spares_of_build hr hbuild m)
  | ok g =>
      obtain ⟨start, hstart⟩ : ∃ p : Point, p = .first settings r (entry g) session 0 := ⟨_, rfl⟩
      have hzero : start.trace.size = 0 := by
        rw [hstart]
        rfl
      obtain ⟨hshort, hvisited, _⟩ := run_limited hbuild hstart n
      obtain ⟨hlong, hvisited', hafter'⟩ := run_limited hbuild hstart m
      have hextends := Point.walk_extends settings r g m start
      rw [hshort, hlong]
      rcases Point.walk_of_fewer settings r g hle start with
        ⟨heq, hends, hbound⟩ | ⟨q, hafter, hgoes, hsize, hcut, hrest⟩
      · -- the shorter limit is enough
        refine ⟨fun _ _ => ⟨?_, ?_⟩, ?_, ?_⟩
        · rw [heq, outcome_limited_of_ne_cut hends n m]
        · rw [hvisited, hvisited', heq]
        · intro _ hmore
          rw [hvisited'] at hmore
          rw [hzero, Nat.zero_add] at hbound
          exact absurd hmore (Nat.not_lt.mpr hbound)
        · intro hcut
          exact absurd ((outcome_limited_eq_iff hextends m).mp hcut).1 hends
      · -- the shorter limit cuts at `q`, where the longer run goes on
        have hgrows := Point.walk_extends settings r g (m - n) q
        rw [← hrest] at hgrows
        refine ⟨?_, ?_, ?_⟩
        · intro hends hfew
          rw [hvisited'] at hfew
          by_cases hleft : m - n = 0
          · obtain ⟨id, hid⟩ := Option.ne_none_iff_exists'.mp hgoes
            rw [hrest, hleft, Point.walk_of_zero (p := q.withVisits 0) rfl hid] at hends
            exact absurd rfl (hends m)
          · have hmore := hgrows.visited hgoes hleft
            rw [hsize, hzero, Nat.zero_add] at hmore
            exact absurd hmore (Nat.not_lt.mpr hfew)
        · intro _ _
          rw [hafter', hafter, hcut]
          exact ⟨rfl, rfl⟩
        · intro _
          obtain ⟨lines, hlines⟩ := hgrows.log
          refine ⟨by rw [hcut]; rfl, ?_⟩
          rw [hcut, hlines, OutputLog.toList_lines_extend]
          exact List.prefix_append _ _

/-- **The step limit only cuts a run.** An emulation that ends by itself within a limit is the same
under every larger one; under a smaller limit it stops with that limit, and leaves simulators,
machine and log as they were after so many statements. An emulation that a limit stops is stopped
by every smaller one, and then had logged a part of what it logs here. The same holds from any
statement of the arena. -/
theorem emulate_curtailed (settings : Settings) (r : Routine) (session : Session) {n m : Nat}
    (hle : n ≤ m) :
    Curtails settings r.toDraft (·.entry) session n m
        (emulate (settings.limited n) r session) (emulate (settings.limited m) r session) ∧
      ∀ start, r.contains start = true →
        Curtails settings r.toDraft (fun _ => some start) session n m
          (emulateFrom (settings.limited n) r start session)
          (emulateFrom (settings.limited m) r start session) := by
  refine ⟨curtails_run settings r.wellFormed _ session hle, ?_⟩
  intro start hstart
  unfold emulateFrom
  rw [if_pos hstart, if_pos hstart]
  exact curtails_run settings r.wellFormed _ session hle

/-- A run of seven visits under a limit of twenty is the same under a limit of seven, and a limit of
three stops it in front of its fourth statement. -/
theorem emulate_curtailed_nested :
    let session : Session := ⟨[.libc {}, .stackMachine {}], .new {} (.new .little 64), {}⟩
    emulate (Settings.limited {} 7) Graph.nestedRoutine session =
        emulate (Settings.limited {} 20) Graph.nestedRoutine session ∧
      (emulate (Settings.limited {} 3) Graph.nestedRoutine session).1 =
        .failed (.stepLimitExceeded 3) ∧
      sessionAfter? (Settings.limited {} 20) Graph.nestedRoutine.toDraft (·.entry) session 3 =
        some (emulate (Settings.limited {} 3) Graph.nestedRoutine session).2 ∧
      (emulate (Settings.limited {} 3) Graph.nestedRoutine session).2.log.lines.toList <+:
        (emulate (Settings.limited {} 5) Graph.nestedRoutine session).2.log.lines.toList := by
  intro session
  have hends : ∀ limit, (emulate (Settings.limited {} 20) Graph.nestedRoutine session).1 ≠
      .failed (.stepLimitExceeded limit) := by
    rintro limit ⟨⟩
  have hvisited :
      (visited (Settings.limited {} 20) Graph.nestedRoutine.toDraft (·.entry) session).size = 7 :=
    rfl
  obtain ⟨hsame, _⟩ := emulate_curtailed {} Graph.nestedRoutine session (show 7 ≤ 20 by decide)
  obtain ⟨hcut, _⟩ := emulate_curtailed {} Graph.nestedRoutine session (show 3 ≤ 20 by decide)
  obtain ⟨hboth, _⟩ := emulate_curtailed {} Graph.nestedRoutine session (show 3 ≤ 5 by decide)
  have hstops := hcut.stops hends (by rw [hvisited]; decide)
  exact ⟨(hsame.ends hends (Nat.le_of_eq hvisited)).1, hstops.1, hstops.2, (hboth.stopped rfl).2⟩

end Limits

end RoutineEmulator.Emulator
