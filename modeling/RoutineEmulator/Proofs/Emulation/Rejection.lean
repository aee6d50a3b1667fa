import RoutineEmulator.Emulation.Emulator
import RoutineEmulator.Proofs.Graph.Building
/-!
Routines that have no graph.

The graph of a routine is refused for one of the statements that its body contains: a `switch`, or
a `break` or `continue` without a label and without a loop around it. Of several the first one in
source order makes the fault. An emulation that is refused touches no machine.
-/

namespace RoutineEmulator.Emulator

open RoutineEmulator.Graph

/-- No parent is a `switch`. -/
def OutsideSwitches (r : Draft) (path : List StmtId) : Prop :=
  ∀ parent ∈ path, ∀ value cases default, r.stmt? parent ≠ some (.switch value cases default)

section Rejection

variable {r : Draft} {id : StmtId} {path : List StmtId} {e : EmulationError}

/-- A statement in a `switch` is not the first one that is refused. -/
theorem outsideSwitches_of_first (hr : r.WellFormed) {before after : List (StmtId × List StmtId)}
    (h : r.sourceOrder = before ++ (id, path) :: after)
    (hbefore : ∀ q ∈ before, ∀ e, ¬ Refused r q.1 q.2 e) : OutsideSwitches r path := by
  intro parent hparent value cases default hswitch
  obtain ⟨above, habove⟩ := Draft.parents_before hr h parent hparent
  exact hbefore _ habove _ (.switch hswitch)

/-- The fault of a graph is that of the first refused statement. -/
theorem build_eq_error_iff_first (hr : r.WellFormed) :
    build r = .error e ↔ ∃ before id path after, r.sourceOrder = before ++ (id, path) :: after ∧
      OutsideSwitches r path ∧ Refused r id path e ∧
      ∀ q ∈ before, ∀ e', ¬ Refused r q.1 q.2 e' := by
  rw [build_eq_error_iff hr, firstRefusal?_eq_some_iff]
  constructor
  · rintro ⟨before, id, path, after, hlisted, hrefused, hbefore⟩
    have hswitches := outsideSwitches_of_first hr hlisted hbefore
    exact ⟨before, id, path, after, hlisted, hswitches, hrefused, hbefore⟩
  · rintro ⟨before, id, path, after, hlisted, _, hrefused, hbefore⟩
    exact ⟨before, id, path, after, hlisted, hrefused, hbefore⟩

/-- A graph is refused exactly where the body contains a refused statement. -/
theorem exists_build_eq_error_iff (hr : r.WellFormed) :
    (∃ e, build r = .error e) ↔
      ∃ id path e, r.Ancestors id path ∧ OutsideSwitches r path ∧ Refused r id path e := by
  constructor
  · rintro ⟨e, h⟩
    obtain ⟨before, id, path, after, hlisted, hswitches, hrefused, _⟩ :=
      (build_eq_error_iff_first hr).mp h
    have hpath : r.Ancestors id path := (Draft.mem_sourceOrder_iff hr).mp (by simp [hlisted])
    exact ⟨id, path, e, hpath, hswitches, hrefused⟩
  · rintro ⟨id, path, e, hpath, _, hrefused⟩
    -- a refused statement is listed, so some statement is the first of them
    cases hfirst : firstRefusal? r r.sourceOrder with
    | some e' => exact ⟨e', (build_eq_error_iff hr).mpr hfirst⟩
    | none =>
        have hlisted := (Draft.mem_sourceOrder_iff hr).mpr hpath
        exact absurd hrefused (firstRefusal?_eq_none_iff.mp hfirst _ hlisted e)

/-- A run without a graph fails as the graph did, before anything was executed. -/
theorem run_of_build_eq_error (settings : Settings) (entry : Graph → Option StmtId)
    (session : Session) (h : build r = .error e) :
    (run settings r entry session).1 = .failed e ∧
      (run settings r entry session).2.machine = session.machine := by
  unfold run
  rw [h]
  exact ⟨rfl, rfl⟩

end Rejection

/-- **A routine is rejected for the first statement without edges.** The graph of a routine is
refused exactly where its body contains, outside of any `switch`, a `switch` or a `break` or
`continue` without a label and without a loop around it; detached statements do not matter. The
fault is that of the first such statement in source order. An emulation then fails with it, and
leaves the machine as it was. -/
theorem emulate_rejects_first (r : Routine) :
    ((∃ e, build r.toDraft = .error e) ↔
      ∃ id path e, r.Ancestors id path ∧ OutsideSwitches r.toDraft path ∧
        Refused r.toDraft id path e) ∧
    (∀ e, build r.toDraft = .error e ↔
      ∃ before id path after, r.sourceOrder = before ++ (id, path) :: after ∧
        OutsideSwitches r.toDraft path ∧ Refused r.toDraft id path e ∧
        ∀ q ∈ before, ∀ e', ¬ Refused r.toDraft q.1 q.2 e') ∧
    ∀ e, build r.toDraft = .error e → ∀ settings session,
      ((emulate settings r session).1 = .failed e ∧
        (emulate settings r session).2.machine = session.machine) ∧
      ∀ entry, r.contains entry = true →
        (emulateFrom settings r entry session).1 = .failed e ∧
          (emulateFrom settings r entry session).2.machine = session.machine := by
  have hr := r.wellFormed
  refine ⟨exists_build_eq_error_iff hr, fun e => build_eq_error_iff_first hr, ?_⟩
  intro e h settings session
  refine ⟨run_of_build_eq_error settings _ session h, ?_⟩
  intro entry hentry
  unfold emulateFrom
  rw [if_pos hentry]
  exact run_of_build_eq_error settings _ session h

/-- An `if` with an arm that breaks, and then a `switch`. Another `switch` is detached. -/
def strayDraft : Draft where
  name := "stray"
  address := 0x1000
  body := ⟨0⟩
  stmts := #[.block [⟨1⟩, ⟨4⟩], .ifElse [⟨.int 1, ⟨2⟩⟩] none, .block [⟨3⟩], .breakLoop none,
    .switch (.int 0) [] none, .switch (.int 1) [] none]

def strayRoutine : Routine where
  toDraft := strayDraft
  valid := Draft.check_eq_ok_iff.mpr ⟨by decide, by decide, by decide, by decide⟩

/-- The `break` is refused, since it stands before the `switch`. -/
theorem emulate_rejects_first_stray :
    build strayRoutine.toDraft =
        .error (.unimplementedStatement (strayDraft.renderStmt ⟨3⟩ ++ " (outside of a loop)")) ∧
      ∃ id path e, strayDraft.Ancestors id path ∧ OutsideSwitches strayDraft path ∧
        Refused strayDraft id path e := by
  have houtside : OutsideLoops strayDraft [⟨2⟩, ⟨1⟩, ⟨0⟩] :=
    innermostLoop?_eq_none_iff.mp rfl
  have hrefused : Refused strayDraft ⟨3⟩ [⟨2⟩, ⟨1⟩, ⟨0⟩] _ := .breakLoop rfl houtside
  have hbefore : ∀ q ∈ [((⟨0⟩ : StmtId), []), (⟨1⟩, [⟨0⟩]), (⟨2⟩, [⟨1⟩, ⟨0⟩])], ∀ e,
      ¬ Refused strayDraft q.1 q.2 e := by
    intro q hq
    apply refusal?_eq_none_iff.mp
    revert q
    decide
  have hlisted : strayDraft.sourceOrder = [((⟨0⟩ : StmtId), []), (⟨1⟩, [⟨0⟩]), (⟨2⟩, [⟨1⟩, ⟨0⟩])] ++
      (⟨3⟩, [⟨2⟩, ⟨1⟩, ⟨0⟩]) :: [(⟨4⟩, [⟨0⟩])] := rfl
  have hswitches := outsideSwitches_of_first strayRoutine.wellFormed hlisted hbefore
  obtain ⟨hiff, hfirst, _⟩ := emulate_rejects_first strayRoutine
  have hbuild := (hfirst _).mpr ⟨_, _, _, _, hlisted, hswitches, hrefused, hbefore⟩
  exact ⟨hbuild, hiff.mp ⟨_, hbuild⟩⟩

end RoutineEmulator.Emulator
