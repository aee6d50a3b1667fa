import RoutineEmulator.Proofs.Emulation.StepLimit
/-!
The statements that a run visits, one after the other, with the lines that each of them logs.

A trace has the texts of the visited statements only. The itinerary of a run also tells which
statements they are, and tells apart what the log of the run owes to each of them.
-/

namespace RoutineEmulator

/-! ## What was appended -/

namespace OutputLog

/-- The lines that a log has behind those of an earlier one. -/
def since (later earlier : OutputLog) : List String :=
  later.lines.toList.drop earlier.lines.size

@[simp] theorem since_extend (log : OutputLog) (lines : List String) :
    (log.extend lines).since log = lines := by
  unfold since
  rw [toList_lines_extend, ← Array.length_toList, List.drop_left]

end OutputLog

namespace Emulator

/-! ## Itineraries -/

/-- A visited statement, with the lines that its hooks and its calls appended to the log. -/
structure Stop where
  id : StmtId
  lines : List String
  deriving DecidableEq, Repr

/-- The stops of a walk. A visit that fails is the last one. -/
def stops (settings : Settings) (r : Draft) (g : Graph) :
    Nat → Option StmtId → Session → List Stop
  | _, none, _ => []
  | 0, some _, _ => []
  | visits + 1, some id, session =>
    let session := announce settings (r.renderStmt id) session
    match (visit r g id).runOn session with
    | (.error _, after) => [⟨id, after.log.since session.log⟩]
    | (.ok step, after) =>
      ⟨id, after.log.since session.log⟩ :: stops settings r g visits step.next after

/-- The stops of a run. A routine without a graph is not visited. -/
def itinerary (settings : Settings) (r : Draft) (entry : Graph → Option StmtId)
    (session : Session) : List Stop :=
  match Graph.build r with
  | .error _ => []
  | .ok g => stops settings r g (settings.maxSteps.getD unlimited) (entry g)
      (Point.opened settings r session)

section

variable {settings : Settings} {r : Draft} {g : Graph}

@[simp] theorem stops_none (settings : Settings) (r : Draft) (g : Graph) (visits : Nat)
    (session : Session) : stops settings r g visits none session = [] := by
  cases visits <;> rfl

/-- The next visit is the next stop. It is the last one, and the walk ends by itself there, or the
walk goes on at another statement. -/
theorem stops_step (settings : Settings) (r : Draft) (g : Graph) (visits : Nat) (id : StmtId)
    (session : Session) :
    ∃ stop : Stop, stop.id = id ∧
      ((stops settings r g (visits + 1) (some id) session = [stop] ∧
          ∀ trace, (walk settings r g (visits + 1) (some id) trace session).ending ≠ .cut) ∨
        ∃ step target after,
          (visit r g id).runOn (announce settings (r.renderStmt id) session) = (.ok step, after) ∧
          step.next = some target ∧
          stops settings r g (visits + 1) (some id) session =
            stop :: stops settings r g visits (some target) after ∧
          ∀ trace, ∃ trace', walk settings r g (visits + 1) (some id) trace session =
            walk settings r g visits (some target) trace' after) := by
  refine ⟨⟨id, ((visit r g id).runOn (announce settings (r.renderStmt id) session)).2.log.since
    (announce settings (r.renderStmt id) session).log⟩, rfl, ?_⟩
  rcases hrun : (visit r g id).runOn (announce settings (r.renderStmt id) session) with
    ⟨result, after⟩
  cases result with
  | error e =>
      left
      refine ⟨?_, fun trace => ?_⟩
      · rw [stops]
        simp only [hrun]
      · rw [walk]
        simp only [hrun]
        exact Ending.noConfusion
  | ok step =>
      have hstops : stops settings r g (visits + 1) (some id) session =
          ⟨id, after.log.since (announce settings (r.renderStmt id) session).log⟩ ::
            stops settings r g visits step.next after := by
        rw [stops]
        simp only [hrun]
      have hwalk : ∀ trace, ∃ trace', walk settings r g (visits + 1) (some id) trace session =
          walk settings r g visits step.next trace' after := by
        intro trace
        rw [walk]
        simp only [hrun]
        exact ⟨_, rfl⟩
      cases hnext : step.next with
      | none =>
          left
          refine ⟨by rw [hstops, hnext, stops_none], fun trace => ?_⟩
          obtain ⟨trace', hwalk⟩ := hwalk trace
          rw [hwalk, hnext, walk]
          exact Ending.noConfusion
      | some target =>
          rw [hnext] at hstops hwalk
          exact .inr ⟨step, target, after, rfl, hnext, hstops, hwalk⟩

/-- A walk records the texts of its stops. -/
theorem toList_statements_walk (visits : Nat) (current : Option StmtId) (trace : ExecutionTrace)
    (session : Session) :
    (walk settings r g visits current trace session).trace.statements.toList =
      trace.statements.toList ++
        (stops settings r g visits current session).map (r.renderStmt ·.id) := by
  induction visits generalizing current trace session with
  | zero => cases current <;> simp [walk, stops]
  | succ visits ih =>
      cases current with
      | none => simp [walk, stops]
      | some id =>
          rcases hrun : (visit r g id).runOn (announce settings (r.renderStmt id) session) with
            ⟨result, after⟩
          unfold walk stops
          cases result with
          | error e => simp only [hrun, Array.toList_push, List.map_cons, List.map_nil]
          | ok step =>
              simp only [hrun, List.map_cons]
              rw [ih]
              simp [record]

/-- The trace of a run has the text of every stop, in order. -/
theorem toList_visited (entry : Graph → Option StmtId) (session : Session) :
    (visited settings r entry session).toList =
      (itinerary settings r entry session).map (r.renderStmt ·.id) := by
  unfold visited itinerary
  cases Graph.build r with
  | error e => rfl
  | ok g => exact toList_statements_walk _ _ _ _

end

end Emulator

end RoutineEmulator
