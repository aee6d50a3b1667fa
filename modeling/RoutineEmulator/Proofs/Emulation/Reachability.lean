import RoutineEmulator.Proofs.Emulation.Points
import RoutineEmulator.Proofs.Graph.Targets
import RoutineEmulator.Proofs.Simulation.Work
/-!
The statements that an emulation comes to.

Every visit goes along an edge of the graph, so a walk from the first statement stays with the
statements of the body and the labels it jumps to, and a walk from any other statement stays in the
arena. Nothing comes behind a detached label, since it has no edges. A branch that is taken leads
into its block.
-/

namespace RoutineEmulator.Emulator

open RoutineEmulator.Graph

section Visits

variable {r : Draft} {g : Graph} {id : StmtId} {session session' : Session} {step : Step}

/-! ## Steps go along edges -/

/-- A statement that was executed leads along one of its edges. -/
theorem leads_of_execute {s : Stmt} (h : (execute r g id s).runOn session = (.ok step, session')) :
    Leads g id step.next := by
  cases s with
  | goto | label | block | decl | breakLoop | continueLoop =>
      cases h
      exact .fallthrough
  | ret value =>
      cases value with
      | none =>
          cases h
          exact .fallthrough
      | some value =>
          obtain ⟨_, _, _, h⟩ := Work.exists_of_runOn_bind_eq_ok h
          cases h
          exact .fallthrough
  | assign lhs rhs compound declare =>
      cases compound with
      | some operator => cases h
      | none =>
          obtain ⟨_, _, _, h⟩ := Work.exists_of_runOn_bind_eq_ok h
          cases h
          exact .fallthrough
  | ifElse branches default =>
      obtain ⟨chosen, _, _, h⟩ := Work.exists_of_runOn_bind_eq_ok h
      cases chosen with
      | some n =>
          cases h
          exact .conditional n
      | none =>
          cases h
          cases default with
          | some block => exact .conditional branches.length
          | none => exact .fallthrough
  | loop kind predicate body =>
      obtain ⟨value, _, _, h⟩ := Work.exists_of_runOn_bind_eq_ok h
      cases h
      show Leads g id (if value ≠ 0 then g.nthNext id 0 else g.next id)
      split
      · exact .conditional 0
      · exact .fallthrough
  | call | jumpFar =>
      obtain ⟨_, _, _, h⟩ := Work.exists_of_runOn_bind_eq_ok h
      cases h
      exact .fallthrough
  | switch => cases h

/-- A visit leads along an edge of its statement. A statement outside the arena has no edges. -/
theorem leads_of_visit (hbuild : build r = .ok g)
    (h : (visit r g id).runOn session = (.ok step, session')) : Leads g id step.next := by
  obtain ⟨_, between, _, h⟩ := Work.exists_of_runOn_bind_eq_ok h
  cases hs : r.stmt? id with
  | some s =>
      rw [hs] at h
      exact leads_of_execute h
  | none =>
      rw [hs] at h
      cases h
      have hedges : g.edges[id.index]? = none := by
        rw [Array.getElem?_eq_none_iff]
        have hsize : g.edges.size = r.size := size_eq_of_build hbuild
        rw [hsize]
        exact Array.getElem?_eq_none_iff.mp hs
      have hnext : g.next id = none := by
        rw [Graph.next, successors?, hedges]
        rfl
      show Leads g id none
      rw [← hnext]
      exact .fallthrough

/-! ## Branches lead into their blocks -/

/-- A chosen arm exists. -/
theorem lt_of_chooseBranch {branches : List Branch} {first n : Nat}
    (h : (chooseBranch r branches first).runOn session = (.ok (some n), session')) :
    first ≤ n ∧ n < first + branches.length := by
  induction branches generalizing first session with
  | nil => cases h
  | cons branch rest ih =>
      obtain ⟨value, between, _, h⟩ := Work.exists_of_runOn_bind_eq_ok h
      by_cases hvalue : value = 0
      · rw [if_neg (by simpa using hvalue)] at h
        obtain ⟨hle, hlt⟩ := ih h
        rw [List.length_cons]
        omega
      · rw [if_pos hvalue] at h
        cases h
        simp

end Visits

/-- The loops and branches of the body have edges into all of their blocks, and take them. -/
structure BranchesInside (r : Draft) (g : Graph) : Prop where
  arm : ∀ {id branches default n branch}, r.Placed id →
    r.stmt? id = some (.ifElse branches default) → branches[n]? = some branch →
    EntersBlock r g id n branch.block
  default : ∀ {id branches block}, r.Placed id →
    r.stmt? id = some (.ifElse branches (some block)) → EntersBlock r g id branches.length block
  body : ∀ {id kind predicate block}, r.Placed id →
    r.stmt? id = some (.loop kind predicate block) → EntersBlock r g id 0 block
  /-- An arm that is chosen exists, and control goes to its block. -/
  takesArm : ∀ {id branches default n session session'}, r.Placed id →
    r.stmt? id = some (.ifElse branches default) →
    (chooseBranch r branches 0).runOn session = (.ok (some n), session') →
    ∃ branch, branches[n]? = some branch ∧
      (execute r g id (.ifElse branches default)).runOn session =
        (.ok { next := some branch.block }, session')
  /-- Without an arm control goes to the default, if there is one. -/
  takesDefault : ∀ {id branches block session session'}, r.Placed id →
    r.stmt? id = some (.ifElse branches (some block)) →
    (chooseBranch r branches 0).runOn session = (.ok none, session') →
    (execute r g id (.ifElse branches (some block))).runOn session =
      (.ok { next := some block }, session')
  /-- A loop whose predicate holds goes to its body. -/
  takesBody : ∀ {id kind predicate block value session session'}, r.Placed id →
    r.stmt? id = some (.loop kind predicate block) →
    (Evaluation.eval r predicate).runOn session = (.ok value, session') → value ≠ 0 →
    (execute r g id (.loop kind predicate block)).runOn session =
      (.ok { next := some block }, session')

theorem branchesInside_of_build {r : Draft} {g : Graph} (hr : r.WellFormed)
    (h : build r = .ok g) : BranchesInside r g := by
  have harm : ∀ {id branches default n branch}, r.Placed id →
      r.stmt? id = some (.ifElse branches default) → branches[n]? = some branch →
      EntersBlock r g id n branch.block := by
    intro id branches default n branch hplaced hs hbranch
    obtain ⟨hlt, rfl⟩ := List.getElem?_eq_some_iff.mp hbranch
    apply entersBlock_of_targetsOf hr h hplaced hs
    simp [targetsOf, List.getElem?_append_left, hlt]
  have hdefault : ∀ {id branches block}, r.Placed id →
      r.stmt? id = some (.ifElse branches (some block)) →
      EntersBlock r g id branches.length block := by
    intro id branches block hplaced hs
    apply entersBlock_of_targetsOf hr h hplaced hs
    simp [targetsOf]
  have hbody : ∀ {id kind predicate block}, r.Placed id →
      r.stmt? id = some (.loop kind predicate block) → EntersBlock r g id 0 block := by
    intro id kind predicate block hplaced hs
    exact entersBlock_of_targetsOf hr h hplaced hs rfl
  refine ⟨harm, hdefault, hbody, ?_, ?_, ?_⟩
  · intro id branches default n session session' hplaced hs hchosen
    have hlt : n < branches.length := by simpa using (lt_of_chooseBranch hchosen).2
    have hbranch : branches[n]? = some branches[n] := List.getElem?_eq_getElem hlt
    refine ⟨_, hbranch, ?_⟩
    rw [execute, Work.runOn_bind_of_ok hchosen]
    simp [(harm hplaced hs hbranch).1]
  · intro id branches block session session' hplaced hs hchosen
    rw [execute, Work.runOn_bind_of_ok hchosen]
    simp [(hdefault hplaced hs).1]
  · intro id kind predicate block value session session' hplaced hs hvalue hne
    rw [execute, Work.runOn_bind_of_ok hvalue]
    simp [hne, (hbody hplaced hs).1]

/-! ## Walks stay inside -/

section Walks

variable {settings : Settings} {r : Draft} {g : Graph} {id : StmtId} {p q : Point}

theorem leads_of_advance (h : build r = .ok g) (hadvance : p.advance? settings r g = some q)
    (hcurrent : p.current = some id) : Leads g id q.current := by
  obtain ⟨visits, other, step, session, _, hother, hvisit, rfl⟩ :=
    Point.advance?_eq_some_iff.mp hadvance
  obtain rfl : id = other := Option.some.inj (hcurrent.symm.trans hother)
  exact leads_of_visit h hvisit

/-- A walk goes along edges. -/
theorem wanders_of_reaches (h : build r = .ok g) (hreaches : p.Reaches settings r g q) :
    Wanders g p.current q.current := by
  refine hreaches.invariant (fun q => Wanders g p.current q.current) .start ?_
  intro between q hbetween hadvance
  obtain ⟨_, id, _, _, _, hcurrent, _⟩ := Point.advance?_eq_some_iff.mp hadvance
  rw [hcurrent] at hbetween
  exact hbetween.step (leads_of_advance h hadvance hcurrent)

/-- Behind a statement that leads nowhere a walk ends. -/
theorem ended_of_leads (h : build r = .ok g) (hcurrent : p.current = some id)
    (hnone : ∀ next, Leads g id next → next = none) (hreaches : p.Reaches settings r g q) :
    q = p ∨ q.current = none := by
  refine hreaches.invariant (fun q => q = p ∨ q.current = none) (.inl rfl) ?_
  intro between q hbetween hadvance
  right
  rcases hbetween with rfl | hended
  · exact hnone _ (leads_of_advance h hadvance hcurrent)
  · -- nothing is visited once control has left the routine
    obtain ⟨_, _, _, _, _, hother, _⟩ := Point.advance?_eq_some_iff.mp hadvance
    rw [hended] at hother
    cases hother

end Walks

/-- **Emulations stay inside their routine.** Every statement that an emulation comes to exists and
is no `switch`; the body contains it, or it is a detached label, and then it is the last one. An
emulation from any statement of the arena comes to existing statements only. The branches of the
body have edges into their blocks and take them. All of this holds under any settings, on any
session and for any number of visits; and wherever control goes along edges, whatever makes it take
them. -/
theorem emulate_stays_inside (r : Routine) {g : Graph} (h : build r.toDraft = .ok g) :
    (∀ settings session visits p,
      (Point.first settings r.toDraft g.entry session visits).Reaches settings r.toDraft g p →
      ∀ id, p.current = some id → Visitable r.toDraft g id ∧
        (¬ r.Placed id → ∀ q, p.Reaches settings r.toDraft g q → q = p ∨ q.current = none)) ∧
    (∀ entry, r.contains entry = true → ∀ settings session visits p,
      (Point.first settings r.toDraft (some entry) session visits).Reaches settings r.toDraft g p →
      ∀ id, p.current = some id → ∃ s, r.stmt? id = some s) ∧
    BranchesInside r.toDraft g ∧
    (∀ id, Wanders g g.entry (some id) → Visitable r.toDraft g id) ∧
    ∀ entry, r.contains entry = true → ∀ id, Wanders g (some entry) (some id) →
      ∃ s, r.stmt? id = some s := by
  have hr := r.wellFormed
  have hvisitable : ∀ id, Wanders g g.entry (some id) → Visitable r.toDraft g id := by
    intro id hwanders
    apply visitable_of_canArrive hr h
    exact canArrive_of_wanders hr h (fun _ => canArrive_of_entry hr h) hwanders
  have hcontained : ∀ entry, r.contains entry = true → ∀ id, Wanders g (some entry) (some id) →
      ∃ s, r.stmt? id = some s := by
    intro entry hentry id hwanders
    apply Draft.contains_iff.mp
    refine contains_of_wanders hr h ?_ hwanders
    rintro _ ⟨⟩
    exact hentry
  refine ⟨?_, ?_, branchesInside_of_build hr h, hvisitable, hcontained⟩
  · intro settings session visits p hreaches id hid
    have hwanders := wanders_of_reaches h hreaches
    rw [hid] at hwanders
    have hvisit := hvisitable id hwanders
    refine ⟨hvisit, ?_⟩
    intro hdetached q hq
    exact ended_of_leads h hid (hvisit.place.resolve_left hdetached).2 hq
  · intro entry hentry settings session visits p hreaches id hid
    have hwanders := wanders_of_reaches h hreaches
    rw [hid] at hwanders
    exact hcontained entry hentry id hwanders

/-- A jump to a label that stands nowhere. -/
def leapDraft : Draft where
  name := "leap"
  address := 0x1000
  body := ⟨0⟩
  stmts := #[.block [⟨1⟩], .goto ⟨2⟩, .label "out"]

def leapRoutine : Routine where
  toDraft := leapDraft
  valid := Draft.check_eq_ok_iff.mpr ⟨by decide, by decide, by decide, by decide⟩

theorem leapDraft_detached : ¬ leapDraft.Placed ⟨2⟩ := by
  have hchildren : ∀ s ∈ leapDraft.stmts.toList, ⟨2⟩ ∉ s.children := by decide
  rintro ⟨path, hpath⟩
  cases hpath with
  | child _ hs hmem => exact hchildren _ (Draft.mem_of_stmt? hs) hmem

/-- The emulation comes to the label, and it ends there. -/
theorem emulate_stays_inside_leap :
    ∃ g p, build leapRoutine.toDraft = .ok g ∧ p.current = some ⟨2⟩ ∧
      (Point.first {} leapDraft g.entry ⟨[], .new {} (.new .little 64), {}⟩ 3).Reaches
        {} leapDraft g p ∧
      Visitable leapDraft g ⟨2⟩ ∧
      ∀ q, p.Reaches {} leapDraft g q → q = p ∨ q.current = none := by
  refine ⟨_, _, rfl, ?_, .advance .start rfl, ?_⟩
  · rfl
  · obtain ⟨hinside, _⟩ := emulate_stays_inside leapRoutine rfl
    obtain ⟨hvisitable, hlast⟩ := hinside {} ⟨[], .new {} (.new .little 64), {}⟩ 3 _
      (.advance .start rfl) ⟨2⟩ rfl
    exact ⟨hvisitable, hlast leapDraft_detached⟩

end RoutineEmulator.Emulator
