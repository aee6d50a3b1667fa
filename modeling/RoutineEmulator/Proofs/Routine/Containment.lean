import RoutineEmulator.Proofs.Routine.Validity
/-!
How statements contain each other.

`Draft.Ancestors r id path` says that the body contains a statement, and that its parents, from the
nearest one to the body, are `path`. In a well-formed draft a statement has at most one such path,
no statement stands twice on it, and so no nesting is deeper than the number of statements.
-/

namespace RoutineEmulator

theorem StmtId.eq_of_index {a b : StmtId} (h : a.index = b.index) : a = b := by
  cases a
  cases b
  exact congrArg StmtId.mk (UInt32.toNat_inj.mp h)

namespace Draft

/-- The body contains a statement, with these parents around it, the nearest first. -/
inductive Ancestors (r : Draft) : StmtId → List StmtId → Prop
  | body : Ancestors r r.body []
  | child {parent id : StmtId} {path : List StmtId} {s : Stmt} :
      Ancestors r parent path → r.stmt? parent = some s → id ∈ s.children →
      Ancestors r id (parent :: path)

/-- The body contains a statement. -/
def Placed (r : Draft) (id : StmtId) : Prop :=
  ∃ path, r.Ancestors id path

/-! ## Parents -/

section Parents

variable {r : Draft} {id parent other : StmtId} {s t : Stmt}

theorem exists_block_of_any (h : (r.stmt? id).any (·.isBlock) = true) :
    ∃ stmts, r.stmt? id = some (.block stmts) := by
  obtain ⟨s, hs, hblock⟩ := (Option.any_eq_true _ _).mp h
  cases s with
  | block stmts => exact ⟨stmts, hs⟩
  | _ => cases hblock

theorem WellFormed.exists_body (h : r.WellFormed) :
    ∃ stmts, r.stmt? r.body = some (.block stmts) :=
  exists_block_of_any h.body

theorem mem_of_stmt? (h : r.stmt? id = some s) : s ∈ r.stmts.toList :=
  Array.mem_toList_iff.mpr (Array.mem_of_getElem? h)

/-- Loops and branches own blocks. -/
theorem WellFormed.exists_block (h : r.WellFormed) (hs : r.stmt? parent = some s)
    (hid : id ∈ s.bodies) : ∃ stmts, r.stmt? id = some (.block stmts) :=
  exists_block_of_any ((h.references s (mem_of_stmt? hs)).bodies id hid)

/-- A statement is nested in one place only. -/
theorem WellFormed.parent_unique (h : r.WellFormed) (hparent : r.stmt? parent = some s)
    (hid : id ∈ s.children) (hother : r.stmt? other = some t) (hid' : id ∈ t.children) :
    parent = other := by
  -- statements at different places of the arena share no child
  obtain ⟨_, hapart⟩ := List.pairwise_flatMap.mp (List.nodup_cons.mp h.once).2
  have hapart := List.pairwise_iff_getElem.mp hapart
  obtain ⟨hlt, hs⟩ := Array.getElem?_eq_some_iff.mp hparent
  obtain ⟨hlt', ht⟩ := Array.getElem?_eq_some_iff.mp hother
  refine StmtId.eq_of_index ?_
  rcases Nat.lt_trichotomy parent.index other.index with hless | heq | hgreater
  · exact absurd rfl (hapart _ _ (by simpa using hlt) (by simpa using hlt') hless id
      (by simpa [hs] using hid) id (by simpa [ht] using hid'))
  · exact heq
  · exact absurd rfl (hapart _ _ (by simpa using hlt') (by simpa using hlt) hgreater id
      (by simpa [ht] using hid') id (by simpa [hs] using hid))

theorem WellFormed.nodup_children (h : r.WellFormed) (hs : r.stmt? id = some s) :
    s.children.Nodup :=
  (List.pairwise_flatMap.mp (List.nodup_cons.mp h.once).2).1 s (mem_of_stmt? hs)

/-- A statement of a block does not stand in it before. -/
theorem WellFormed.not_mem_before {before rest : List StmtId} (h : r.WellFormed)
    (hblock : r.stmt? parent = some (.block (before ++ id :: rest))) : id ∉ before := by
  intro hmem
  obtain ⟨_, _, hapart⟩ := List.nodup_append.mp (h.nodup_children hblock)
  exact hapart id hmem id List.mem_cons_self rfl

/-- The body is nested in no statement. -/
theorem WellFormed.body_not_child (h : r.WellFormed) (hs : r.stmt? id = some s) :
    r.body ∉ s.children := fun hbody =>
  (List.nodup_cons.mp h.once).1 (List.mem_flatMap.mpr ⟨s, mem_of_stmt? hs, hbody⟩)

end Parents

/-! ## Paths to the body -/

section Paths

variable {r : Draft} {id : StmtId} {path path' : List StmtId}

theorem Ancestors.unique (h : r.WellFormed) (hpath : r.Ancestors id path)
    (hpath' : r.Ancestors id path') : path = path' := by
  induction hpath generalizing path' with
  | body =>
      cases hpath' with
      | body => rfl
      | child _ hs hmem => exact absurd hmem (h.body_not_child hs)
  | child hparent hs hmem ih =>
      cases hpath' with
      | body => exact absurd hmem (h.body_not_child hs)
      | child hparent' hs' hmem' =>
          obtain rfl := h.parent_unique hs hmem hs' hmem'
          rw [ih hparent']

/-- Every parent has a shorter path. -/
theorem Ancestors.exists_of_mem {ancestor : StmtId} (hpath : r.Ancestors id path)
    (hmem : ancestor ∈ path) :
    ∃ above, r.Ancestors ancestor above ∧ above.length < path.length := by
  induction hpath with
  | body => cases hmem
  | child hparent _ _ ih =>
      rcases List.mem_cons.mp hmem with rfl | hmem
      · exact ⟨_, hparent, Nat.lt_succ_self _⟩
      · obtain ⟨above, habove, hlt⟩ := ih hmem
        exact ⟨above, habove, Nat.lt_succ_of_lt hlt⟩

/-- No statement contains itself. -/
theorem Ancestors.not_mem (h : r.WellFormed) (hpath : r.Ancestors id path) : id ∉ path := by
  intro hmem
  obtain ⟨above, habove, hlt⟩ := hpath.exists_of_mem hmem
  rw [hpath.unique h habove] at hlt
  exact Nat.lt_irrefl _ hlt

theorem Ancestors.nodup (h : r.WellFormed) (hpath : r.Ancestors id path) : (id :: path).Nodup := by
  have hself := hpath.not_mem h
  refine List.nodup_cons.mpr ⟨hself, ?_⟩
  induction hpath with
  | body => exact List.nodup_nil
  | child hparent _ _ ih =>
      have hparent' := hparent.not_mem h
      exact List.nodup_cons.mpr ⟨hparent', ih hparent'⟩

theorem Ancestors.exists_stmt (h : r.WellFormed) (hpath : r.Ancestors id path) :
    ∃ s, r.stmt? id = some s := by
  cases hpath with
  | body =>
      obtain ⟨stmts, hbody⟩ := h.exists_body
      exact ⟨_, hbody⟩
  | child _ hs hmem =>
      have hlt := of_decide_eq_true (h.contained _ (mem_of_stmt? hs) _ hmem)
      exact ⟨_, Array.getElem?_eq_getElem hlt⟩

theorem Ancestors.index_lt (h : r.WellFormed) (hpath : r.Ancestors id path) :
    id.index < r.size := by
  obtain ⟨s, hs⟩ := hpath.exists_stmt h
  exact (Array.getElem?_eq_some_iff.mp hs).1

/-- No nesting is deeper than the number of statements. -/
theorem Ancestors.length_lt (h : r.WellFormed) (hpath : r.Ancestors id path) :
    path.length < r.size := by
  -- the path lists different numbers below the size
  have hindices : ((id :: path).map StmtId.index).Nodup :=
    List.Pairwise.map _ (fun _ _ hne heq => hne (StmtId.eq_of_index heq)) (hpath.nodup h)
  have hrange : (id :: path).map StmtId.index ⊆ List.range r.size := by
    intro n hn
    obtain ⟨ancestor, hmem, rfl⟩ := List.mem_map.mp hn
    refine List.mem_range.mpr ?_
    rcases List.mem_cons.mp hmem with rfl | hmem
    · exact hpath.index_lt h
    · obtain ⟨above, habove, _⟩ := hpath.exists_of_mem hmem
      exact habove.index_lt h
  have hle := hindices.length_le_of_subset hrange
  rw [List.length_map, List.length_cons, List.length_range] at hle
  exact hle

end Paths

end Draft

end RoutineEmulator
