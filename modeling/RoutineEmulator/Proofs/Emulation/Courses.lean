import RoutineEmulator.Proofs.Emulation.Inheritance
import RoutineEmulator.Proofs.Emulation.Points
import RoutineEmulator.Proofs.Routine.Validity
import RoutineEmulator.Proofs.Simulation.Serving
/-!
Relations along which an emulation moves its session.

An emulation changes a session in few ways: a simulator answers or prepares, a register of calls is
set, or an assignment stores something. A relation that each of these goes along is one between any
two sessions of the same emulation, earlier and later.
-/

namespace RoutineEmulator

/-- A variable is stored in memory, or in the register that has its number. -/
theorem Machine.setVarValue_cases {s s' : Machine} {var : Identifier} {value : UInt64}
    (h : s.setVarValue var value = .ok s') :
    (∃ address size, s.write address value size = .ok s') ∨
      (var.storage = .register ∨ var.storage = .parameter) ∧
        ∃ stored, s' = s.setRegister var.id stored := by
  obtain ⟨size, _, h⟩ := bind_eq_ok_iff.mp h
  split at h
  · obtain ⟨address, _, h⟩ := bind_eq_ok_iff.mp h
    exact .inl ⟨address, size, h⟩
  · obtain ⟨address, _, h⟩ := bind_eq_ok_iff.mp h
    exact .inl ⟨address, size, h⟩
  · rename_i hstorage
    obtain ⟨_, _, h⟩ := bind_eq_ok_iff.mp h
    cases h
    exact .inr ⟨.inl hstorage, _, rfl⟩
  · rename_i hstorage
    obtain ⟨_, _, h⟩ := bind_eq_ok_iff.mp h
    cases h
    exact .inr ⟨.inr hstorage, _, rfl⟩

namespace Emulator

open Work Evaluation

/-- Settling pops is not seen by anything that does not look at them. -/
theorem map_modify_settlePops {β : Type} {f : Simulator → β} (h : ∀ s, f s.settlePops = f s)
    (chain : List Simulator) (place : Nat) :
    (chain.modify place Simulator.settlePops).map f = chain.map f := by
  apply List.ext_getElem?
  intro other
  rw [List.getElem?_map, List.getElem?_map, List.getElem?_modify]
  cases chain[other]? with
  | none => rfl
  | some s =>
      split
      · exact congrArg some (h s)
      · rfl

/-- A course along which everything goes that calls do to a session. -/
structure CallCourse (R : Session → Session → Prop) : Prop extends Course R where
  chain : ∀ callee args values (session : Session), R session
    (Simulator.respondFirst callee args values session.own session.machine session.log).2
  result : ∀ value (session : Session),
    R session { session with machine := session.machine.setRegister Register.rax value }
  nextHandler : ∀ value (session : Session),
    R session { session with machine := session.machine.setRegister Register.nextHandler value }

/-- A course along which everything goes that an emulation of the routine does to a session. -/
structure SessionCourse (r : Draft) (R : Session → Session → Prop) : Prop extends CallCourse R where
  log : ∀ (session : Session) log, R session { session with log }
  settleAll : ∀ session : Session,
    R session { session with own := session.own.map Simulator.settlePops }
  settle : ∀ place (session : Session),
    R session { session with own := session.own.modify place Simulator.settlePops }
  write : ∀ {address value size s} (session : Session),
    session.machine.write address value size = .ok s → R session { session with machine := s }
  register : ∀ {var : Identifier} value (session : Session), r.Assigns var →
    var.storage = .register ∨ var.storage = .parameter →
    R session { session with machine := session.machine.setRegister var.id value }

/-! ## Evaluations -/

namespace CallCourse

variable {R : Session → Session → Prop}

theorem reads (h : Course R) : Reads fun _ work => work.Moves R where
  pure := h.pure
  fail _ := h.fail _
  bind := h.bind
  machine := h.machine
  ask _ := h.ask _

theorem answers (h : CallCourse R) : Answers fun _ work => work.Moves R where
  chain callee args evalArgs hargs := by
    refine h.toCourse.bind h.toCourse.own fun chain => ?_
    split
    · exact h.toCourse.pure none
    · refine h.toCourse.bind (hargs _) fun values session => ?_
      -- the answer of the chain reads the session as a whole and replaces it
      have hanswer := h.chain (normalizeName callee.name) args values session
      rw [runOn_bind_of_ok (runOn_get _)]
      dsimp only
      rw [runOn_bind_of_ok (runOn_set _ _)]
      split
      · exact hanswer
      · exact hanswer
  result value session := h.result value session
  nextHandler value session := h.nextHandler value session

/-- The evaluation of any expression goes along the course. -/
theorem eval (h : CallCourse R) (r : Draft) (e : Expr) : (Evaluation.eval r e).Moves R :=
  (reads h.toCourse).eval r e (.inr h.answers)

end CallCourse

/-! ## Visits -/

namespace SessionCourse

variable {settings : Settings} {r : Draft} {g : Graph} {R : Session → Session → Prop}
  {p q : Point}

theorem stores (h : SessionCourse r R) : Stores r fun _ work => work.Moves R where
  write _ _ _ := h.toCourse.change fun _ _ _ _ hwrite => h.write _ hwrite
  assign var value hassigns := h.toCourse.change fun own s s' log hstore => by
    rcases Machine.setVarValue_cases hstore with ⟨_, _, hwrite⟩ | ⟨hstorage, stored, rfl⟩
    · exact h.write ⟨own, s, log⟩ hwrite
    · exact h.register stored ⟨own, s, log⟩ hassigns hstorage

theorem prepares (h : SessionCourse r R) : Prepares fun _ work => work.Moves R where
  own := h.toCourse.own
  say := moves_say h.log
  settle place session := h.settle place session

theorem visit (h : SessionCourse r R) (g : Graph) (id : StmtId) : (visit r g id).Moves R :=
  inherits_visit (CallCourse.reads h.toCourse) h.answers h.stores h.prepares g id

/-! ## Walks -/

theorem announce (h : SessionCourse r R) (settings : Settings) (text : String) (session : Session) :
    R session (announce settings text session) := by
  unfold Emulator.announce
  split
  · exact h.log session _
  · exact h.refl session

theorem of_advance (h : SessionCourse r R) (hadvance : p.advance? settings r g = some q) :
    R p.session q.session := by
  obtain ⟨_, id, step, session, _, _, hrun, rfl⟩ := Point.advance?_eq_some_iff.mp hadvance
  have hvisit := h.visit g id (Emulator.announce settings (r.renderStmt id) p.session)
  rw [hrun] at hvisit
  exact h.trans (h.announce settings _ _) hvisit

theorem of_reaches (h : SessionCourse r R) (hreaches : p.Reaches settings r g q) :
    R p.session q.session :=
  hreaches.invariant (fun q => R p.session q.session) (h.refl _) fun _ _ hbetween hadvance =>
    h.trans hbetween (h.of_advance hadvance)

/-- A walk goes along the course to its end, however it ends. -/
theorem of_walk (h : SessionCourse r R) (visits : Nat) (current : Option StmtId)
    (trace : ExecutionTrace) (session : Session) :
    R session (walk settings r g visits current trace session).session := by
  induction visits generalizing current trace session with
  | zero => cases current <;> exact h.refl session
  | succ visits ih =>
      cases current with
      | none => exact h.refl session
      | some id =>
          -- a visit goes along the course also where it fails, and then the walk ends there
          have hvisit := h.trans (h.announce settings (r.renderStmt id) session)
            (h.visit g id (Emulator.announce settings (r.renderStmt id) session))
          unfold walk
          dsimp only
          split
          · rename_i e after hrun
            rw [hrun] at hvisit
            exact hvisit
          · rename_i step after hrun
            rw [hrun] at hvisit
            exact h.trans hvisit (ih _ _ _)

/-- What the simulators do before a routine goes along the course. -/
theorem prepared (h : SessionCourse r R) (session : Session) :
    R session ⟨(Simulator.beforeRoutineAll r.name session.own session.log).1, session.machine,
      (Simulator.beforeRoutineAll r.name session.own session.log).2⟩ := by
  rw [Simulator.own_beforeRoutineAll]
  exact h.trans (h.settleAll session) (h.log _ _)

theorem opened (h : SessionCourse r R) (settings : Settings) (session : Session) :
    R session (Point.opened settings r session) := by
  have hprepared := h.prepared session
  unfold Point.opened
  dsimp only
  split
  · exact h.trans hprepared (h.log _ _)
  · exact hprepared

end SessionCourse

/-! ## Emulations -/

/-- Earlier and later sessions of a run are related: those between two visits, the one that the run
starts from, and the one that it leaves. -/
structure Throughout (R : Session → Session → Prop) (settings : Settings) (r : Draft)
    (entry : Graph → Option StmtId) (session : Session) : Prop where
  ends : R session (run settings r entry session).2
  reached : ∀ {g p}, Graph.build r = .ok g →
    (Point.first settings r (entry g) session (settings.maxSteps.getD unlimited)).Reaches
      settings r g p →
    R session p.session ∧ R p.session (run settings r entry session).2 ∧
      ∀ q, p.Reaches settings r g q → R p.session q.session

/-- **A session course is kept throughout.** -/
theorem SessionCourse.throughout {r : Draft} {R : Session → Session → Prop}
    (h : SessionCourse r R) (settings : Settings) (entry : Graph → Option StmtId)
    (session : Session) : Throughout R settings r entry session where
  ends := by
    cases hbuild : Graph.build r with
    | error e =>
        unfold run
        rw [hbuild]
        exact h.prepared session
    | ok g =>
        rw [Point.run_eq_walk_of_reaches hbuild entry session .start]
        exact h.trans (h.opened settings session) (h.of_walk _ _ _ _)
  reached := by
    intro g p hbuild hreaches
    refine ⟨h.trans (h.opened settings session) (h.of_reaches hreaches), ?_, fun q => h.of_reaches⟩
    rw [Point.run_eq_walk_of_reaches hbuild entry session hreaches]
    exact h.of_walk _ _ _ _

/-- An emulation from any statement ends in a related session, also where that statement is
missing. -/
theorem SessionCourse.emulateFrom {r : Routine} {R : Session → Session → Prop}
    (h : SessionCourse r.toDraft R) (settings : Settings) (entry : StmtId) (session : Session) :
    R session (emulateFrom settings r entry session).2 := by
  unfold Emulator.emulateFrom
  split
  · exact (h.throughout settings _ session).ends
  · exact h.refl session

end Emulator

end RoutineEmulator
