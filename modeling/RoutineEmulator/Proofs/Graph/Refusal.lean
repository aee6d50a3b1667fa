import RoutineEmulator.Proofs.Graph.Successors
import RoutineEmulator.Proofs.Routine.SourceOrder
/-!
The statements that no graph is made of.

`Refused` says of a statement with its parents that it has no edges, and names the fault: a `switch`
has none anywhere, and a `break` or `continue` without a label has none where no parent is a loop.
`refusal?` decides it, and `firstRefusal?` finds the first of these statements in a listing.
-/

namespace RoutineEmulator.Graph

/-- No parent is a loop. -/
def OutsideLoops (r : Draft) (path : List StmtId) : Prop :=
  ∀ parent ∈ path, ∀ kind predicate body, r.stmt? parent ≠ some (.loop kind predicate body)

/-- A statement with these parents has no edges, and makes this fault. -/
inductive Refused (r : Draft) (id : StmtId) (path : List StmtId) : EmulationError → Prop
  | switch {value : Expr} {cases : List SwitchCase} {default : Option StmtId} :
      r.stmt? id = some (.switch value cases default) →
      Refused r id path (.unimplementedStatement (r.renderStmt id))
  | breakLoop :
      r.stmt? id = some (.breakLoop none) → OutsideLoops r path →
      Refused r id path (.unimplementedStatement (r.renderStmt id ++ " (outside of a loop)"))
  | continueLoop :
      r.stmt? id = some (.continueLoop none) → OutsideLoops r path →
      Refused r id path (.unimplementedStatement (r.renderStmt id ++ " (outside of a loop)"))

/-- The fault of a statement with these parents, where it has no edges. -/
def refusal? (r : Draft) (id : StmtId) (path : List StmtId) : Option EmulationError :=
  match r.stmt? id with
  | some (.switch ..) => some (.unimplementedStatement (r.renderStmt id))
  | some (.breakLoop none) | some (.continueLoop none) =>
    match innermostLoop? r path with
    | some _ => none
    | none => some (outsideLoop r id)
  | _ => none

/-- The fault of the first listed statement that has no edges. -/
def firstRefusal? (r : Draft) (listed : List (StmtId × List StmtId)) : Option EmulationError :=
  listed.findSome? fun q => refusal? r q.1 q.2

section Refusal

variable {r : Draft} {id : StmtId} {path : List StmtId} {e : EmulationError}

/-- No loop is found among the parents exactly where none of them is a loop. -/
theorem innermostLoop?_eq_none_iff : innermostLoop? r path = none ↔ OutsideLoops r path := by
  unfold OutsideLoops
  induction path with
  | nil => simp [innermostLoop?]
  | cons parent path ih =>
      rw [List.forall_mem_cons, ← ih, innermostLoop?]
      split
      · rename_i kind predicate body hparent
        simp [hparent]
      · rename_i hparent
        exact ⟨fun h => ⟨hparent, h⟩, fun h => h.2⟩

/-- The decision finds the fault of every statement that is refused, and no other one. -/
theorem refusal?_eq_some_iff : refusal? r id path = some e ↔ Refused r id path e := by
  constructor
  · intro h
    unfold refusal? at h
    split at h
    · rename_i hs
      obtain rfl := Option.some.inj h
      exact .switch hs
    · rename_i hs
      split at h
      · cases h
      · rename_i hloop
        obtain rfl := Option.some.inj h
        exact .breakLoop hs (innermostLoop?_eq_none_iff.mp hloop)
    · rename_i hs
      split at h
      · cases h
      · rename_i hloop
        obtain rfl := Option.some.inj h
        exact .continueLoop hs (innermostLoop?_eq_none_iff.mp hloop)
    · cases h
  · intro h
    unfold refusal?
    cases h with
    | switch hs => rw [hs]
    | breakLoop hs houtside =>
        rw [hs, innermostLoop?_eq_none_iff.mpr houtside]
        rfl
    | continueLoop hs houtside =>
        rw [hs, innermostLoop?_eq_none_iff.mpr houtside]
        rfl

theorem refusal?_eq_none_iff : refusal? r id path = none ↔ ∀ e, ¬ Refused r id path e := by
  rw [Option.eq_none_iff_forall_ne_some]
  exact forall_congr' fun e => not_congr refusal?_eq_some_iff

/-! ## The first refusal -/

variable {listed listed' : List (StmtId × List StmtId)}

/-- Of two listings the first one counts, if it has a refused statement at all. -/
theorem firstRefusal?_append :
    firstRefusal? r (listed ++ listed') = (firstRefusal? r listed).or (firstRefusal? r listed') :=
  List.findSome?_append

theorem firstRefusal?_cons_of_refused (h : refusal? r id path = some e) :
    firstRefusal? r ((id, path) :: listed) = some e := by
  unfold firstRefusal?
  rw [List.findSome?_cons, h]

theorem firstRefusal?_cons_of_passed (h : refusal? r id path = none) :
    firstRefusal? r ((id, path) :: listed) = firstRefusal? r listed := by
  unfold firstRefusal?
  rw [List.findSome?_cons, h]

/-- The first refusal is that of a statement with no refused one before it. -/
theorem firstRefusal?_eq_some_iff :
    firstRefusal? r listed = some e ↔
      ∃ before id path after, listed = before ++ (id, path) :: after ∧ Refused r id path e ∧
        ∀ q ∈ before, ∀ e', ¬ Refused r q.1 q.2 e' := by
  unfold firstRefusal?
  rw [List.findSome?_eq_some_iff]
  constructor
  · rintro ⟨before, ⟨id, path⟩, after, hlisted, hrefused, hbefore⟩
    refine ⟨before, id, path, after, hlisted, refusal?_eq_some_iff.mp hrefused, ?_⟩
    exact fun q hq => refusal?_eq_none_iff.mp (hbefore q hq)
  · rintro ⟨before, id, path, after, hlisted, hrefused, hbefore⟩
    refine ⟨before, (id, path), after, hlisted, refusal?_eq_some_iff.mpr hrefused, ?_⟩
    exact fun q hq => refusal?_eq_none_iff.mpr (hbefore q hq)

/-- No refusal is found exactly where no listed statement is refused. -/
theorem firstRefusal?_eq_none_iff :
    firstRefusal? r listed = none ↔ ∀ q ∈ listed, ∀ e, ¬ Refused r q.1 q.2 e := by
  unfold firstRefusal?
  rw [List.findSome?_eq_none_iff]
  exact forall₂_congr fun q _ => refusal?_eq_none_iff

end Refusal

end RoutineEmulator.Graph
