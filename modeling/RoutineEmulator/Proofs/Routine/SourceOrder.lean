import RoutineEmulator.Proofs.Routine.Containment
/-!
The statements of a routine in source order.

`Draft.listing` goes through a statement and all that is nested in it as it is read: a statement
comes before what it contains, and the children of a statement come one after the other. It lists
every statement that the body contains with its parents, each of them once.
-/

namespace RoutineEmulator.Draft

/-- The statement at a position, and its children; none outside the arena. -/
def childrenOf (r : Draft) (id : StmtId) : List StmtId :=
  (r.stmt? id).elim [] Stmt.children

/-- A statement with these parents and all statements in it, in source order, each with its parents;
nested at most so deep. -/
def listWithin (r : Draft) : Nat → StmtId → List StmtId → List (StmtId × List StmtId)
  | 0, _, _ => []
  | depth + 1, id, path =>
    (id, path) :: (r.childrenOf id).flatMap fun child => listWithin r depth child (id :: path)

/-- A statement with these parents and all statements in it, in source order. No nesting is deeper
than the number of statements. -/
def listing (r : Draft) (id : StmtId) (path : List StmtId) : List (StmtId × List StmtId) :=
  r.listWithin (r.size - path.length) id path

/-- All statements in a statement with these parents, in source order. -/
def contents (r : Draft) (id : StmtId) (path : List StmtId) : List (StmtId × List StmtId) :=
  (r.childrenOf id).flatMap fun child => r.listing child (id :: path)

/-- The statements that the body contains, in source order. -/
def sourceOrder (r : Draft) : List (StmtId × List StmtId) :=
  r.listing r.body []

section Listing

variable {r : Draft} {id : StmtId} {path : List StmtId}

theorem childrenOf_eq {s : Stmt} (hs : r.stmt? id = some s) : r.childrenOf id = s.children := by
  rw [childrenOf, hs]
  rfl

theorem exists_stmt_of_mem_childrenOf {child : StmtId} (h : child ∈ r.childrenOf id) :
    ∃ s, r.stmt? id = some s ∧ child ∈ s.children := by
  unfold childrenOf at h
  cases hs : r.stmt? id with
  | none => simp [hs] at h
  | some s => exact ⟨s, rfl, by simpa [hs] using h⟩

/-- A listing starts with its statement, and goes on with the listings of the children. -/
theorem listing_eq (h : path.length < r.size) :
    r.listing id path = (id, path) :: r.contents id path := by
  have hdepth : r.size - path.length = r.size - (id :: path).length + 1 := by
    rw [List.length_cons]
    omega
  unfold listing
  rw [hdepth, listWithin]
  rfl

theorem Ancestors.listing_eq (hr : r.WellFormed) (hpath : r.Ancestors id path) :
    r.listing id path = (id, path) :: r.contents id path :=
  Draft.listing_eq (hpath.length_lt hr)

/-- What is listed with a statement has it, with its parents, among its own. -/
theorem suffix_of_mem_listWithin {depth : Nat} {entry : StmtId × List StmtId}
    (h : entry ∈ r.listWithin depth id path) : (id :: path) <:+ (entry.1 :: entry.2) := by
  induction depth generalizing id path with
  | zero => cases h
  | succ depth ih =>
      rcases List.mem_cons.mp h with rfl | h
      · exact List.suffix_refl _
      · obtain ⟨child, _, h⟩ := List.mem_flatMap.mp h
        exact (List.suffix_cons child (id :: path)).trans (ih h)

theorem ancestors_of_mem_listWithin {depth : Nat} {entry : StmtId × List StmtId}
    (hpath : r.Ancestors id path) (h : entry ∈ r.listWithin depth id path) :
    r.Ancestors entry.1 entry.2 := by
  induction depth generalizing id path with
  | zero => cases h
  | succ depth ih =>
      rcases List.mem_cons.mp h with rfl | h
      · exact hpath
      · obtain ⟨child, hchild, h⟩ := List.mem_flatMap.mp h
        obtain ⟨s, hs, hmem⟩ := exists_stmt_of_mem_childrenOf hchild
        exact ih (.child hpath hs hmem) h

/-- The children of what is listed are listed, where the nesting is allowed for. -/
theorem mem_listWithin_child (hr : r.WellFormed) {depth : Nat} {parent child : StmtId}
    {above : List StmtId} (hpath : r.Ancestors id path) (hsize : r.size ≤ depth + path.length)
    (h : (parent, above) ∈ r.listWithin depth id path) (hchild : child ∈ r.childrenOf parent) :
    (child, parent :: above) ∈ r.listWithin depth id path := by
  induction depth generalizing id path with
  | zero => cases h
  | succ depth ih =>
      rcases List.mem_cons.mp h with heq | h
      · obtain ⟨rfl, rfl⟩ := Prod.mk.inj heq
        obtain ⟨s, hs, hmem⟩ := exists_stmt_of_mem_childrenOf hchild
        have hlt := (Ancestors.child hpath hs hmem).length_lt hr
        obtain ⟨depth, rfl⟩ : ∃ d, depth = d + 1 := by
          rw [List.length_cons] at hlt
          exact ⟨depth - 1, by omega⟩
        apply List.mem_cons_of_mem
        exact List.mem_flatMap.mpr ⟨child, hchild, List.mem_cons_self⟩
      · obtain ⟨other, hother, h⟩ := List.mem_flatMap.mp h
        obtain ⟨s, hs, hmem⟩ := exists_stmt_of_mem_childrenOf hother
        apply List.mem_cons_of_mem
        refine List.mem_flatMap.mpr ⟨other, hother, ?_⟩
        exact ih (.child hpath hs hmem) (by rw [List.length_cons]; omega) h

/-- The source order lists exactly what the body contains. -/
theorem mem_sourceOrder_iff (hr : r.WellFormed) :
    (id, path) ∈ r.sourceOrder ↔ r.Ancestors id path := by
  constructor
  · exact fun h => ancestors_of_mem_listWithin .body h
  · intro hpath
    induction hpath with
    | body =>
        unfold sourceOrder
        rw [Ancestors.body.listing_eq hr]
        exact List.mem_cons_self
    | child hparent hs hmem ih =>
        refine mem_listWithin_child hr .body (Nat.le_add_right _ _) ih ?_
        rw [childrenOf_eq hs]
        exact hmem

/-- A listing has every statement once. Two children of a statement list apart, since what they list
ends in different parents. -/
theorem nodup_listWithin (hr : r.WellFormed) (depth : Nat) (id : StmtId) (path : List StmtId) :
    (r.listWithin depth id path).Nodup := by
  induction depth generalizing id path with
  | zero => exact List.nodup_nil
  | succ depth ih =>
      refine List.nodup_cons.mpr ⟨?_, ?_⟩
      · intro hmem
        obtain ⟨child, _, hmem⟩ := List.mem_flatMap.mp hmem
        have hle := (suffix_of_mem_listWithin hmem).length_le
        simp only [List.length_cons] at hle
        omega
      · refine List.pairwise_flatMap.mpr ⟨fun child _ => ih child (id :: path), ?_⟩
        have hchildren : (r.childrenOf id).Nodup := by
          unfold childrenOf
          cases hs : r.stmt? id with
          | none => exact List.nodup_nil
          | some s => exact hr.nodup_children hs
        refine hchildren.imp ?_
        intro child other hne entry hentry entry' hentry' heq
        subst heq
        apply hne
        have hsuffix := List.suffix_of_suffix_length_le (suffix_of_mem_listWithin hentry)
          (suffix_of_mem_listWithin hentry') (by simp)
        exact (List.cons.inj (hsuffix.eq_of_length (by simp))).1

theorem nodup_sourceOrder (hr : r.WellFormed) : r.sourceOrder.Nodup :=
  nodup_listWithin hr _ _ _

/-- What is listed with a statement is this statement, or comes behind its own parent. -/
theorem sublist_listWithin {depth : Nat} {entry : StmtId × List StmtId}
    (h : entry ∈ r.listWithin depth id path) :
    entry = (id, path) ∨ ∃ parent above, entry.2 = parent :: above ∧
      [(parent, above), entry].Sublist (r.listWithin depth id path) := by
  induction depth generalizing id path with
  | zero => cases h
  | succ depth ih =>
      rcases List.mem_cons.mp h with rfl | hmem
      · exact .inl rfl
      · right
        obtain ⟨child, hchild, hentry⟩ := List.mem_flatMap.mp hmem
        rcases ih hentry with rfl | ⟨parent, above, hpath, hsub⟩
        · exact ⟨id, path, rfl, (List.singleton_sublist.mpr hmem).cons_cons _⟩
        · refine ⟨parent, above, hpath, hsub.trans (List.Sublist.cons _ ?_)⟩
          rw [List.flatMap_def]
          exact List.sublist_flatten_of_mem (List.mem_map_of_mem hchild)

/-- In a list without repetitions, what comes before an element stands in front of it. -/
theorem mem_of_pair_sublist {α : Type} {a b : α} {before after : List α}
    (hnodup : (before ++ b :: after).Nodup) (h : [a, b].Sublist (before ++ b :: after)) :
    a ∈ before := by
  obtain ⟨first, last, hpair, hfirst, hlast⟩ := List.sublist_append_iff.mp h
  cases first with
  | cons x first =>
      obtain rfl : a = x := (List.cons.inj hpair).1
      exact hfirst.subset List.mem_cons_self
  | nil =>
      obtain rfl : [a, b] = last := hpair
      have hb : b ∉ after := (List.nodup_cons.mp (List.nodup_append.mp hnodup).2.1).1
      cases hlast with
      | cons _ h => exact absurd (h.subset (by simp)) hb
      | cons_cons _ h => exact absurd (h.subset (by simp)) hb

/-- The parents of a statement are listed before it. -/
theorem parents_before (hr : r.WellFormed) {before after : List (StmtId × List StmtId)}
    (h : r.sourceOrder = before ++ (id, path) :: after) :
    ∀ parent ∈ path, ∃ above, (parent, above) ∈ before := by
  induction path generalizing id before after with
  | nil => simp
  | cons nearest above ih =>
      have hmem : (id, nearest :: above) ∈ r.sourceOrder := by simp [h]
      have hnearest : (nearest, above) ∈ before := by
        rcases sublist_listWithin hmem with heq | ⟨_, _, ⟨⟩, hsub⟩
        · cases heq
        · change List.Sublist _ r.sourceOrder at hsub
          have hnodup := nodup_sourceOrder hr
          rw [h] at hsub hnodup
          exact mem_of_pair_sublist hnodup hsub
      intro parent hparent
      rcases List.mem_cons.mp hparent with rfl | hparent
      · exact ⟨above, hnearest⟩
      · -- the parents above are listed before the nearest one
        obtain ⟨first, last, rfl⟩ := List.append_of_mem hnearest
        rw [List.append_assoc, List.cons_append] at h
        obtain ⟨highest, hhighest⟩ := ih h parent hparent
        exact ⟨highest, List.mem_append_left _ hhighest⟩

/-- No statement is listed under two places. -/
theorem nodup_map_sourceOrder (hr : r.WellFormed) : (r.sourceOrder.map (·.1)).Nodup := by
  refine List.pairwise_map.mpr ((nodup_sourceOrder hr).imp_of_mem ?_)
  rintro ⟨id, path⟩ ⟨other, path'⟩ hmem hmem' hne heq
  obtain rfl : id = other := heq
  have hpath := (mem_sourceOrder_iff hr).mp hmem
  have hpath' := (mem_sourceOrder_iff hr).mp hmem'
  exact hne (by rw [hpath.unique hr hpath'])

end Listing

end RoutineEmulator.Draft
