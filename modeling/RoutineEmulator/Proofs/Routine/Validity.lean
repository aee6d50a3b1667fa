import RoutineEmulator.Routine.Arena
/-!
What the check of a routine promises.

`Draft.WellFormed` lists the promises, and `Draft.check_eq_ok_iff` says that the check accepts the
drafts that keep them and no others. The check walks over the statements with the set of those that
have a place. `PlacedOnce` is what such a walk establishes: the statements that it places are
distinct, and none of them had a place before.
-/

namespace RoutineEmulator

/-! ## Computations that may fail -/

/-- A sequence succeeds where both of its parts do. -/
theorem bind_eq_ok_iff {ε α β : Type} {x : Except ε α} {f : α → Except ε β} {b : β} :
    (x >>= f) = .ok b ↔ ∃ a, x = .ok a ∧ f a = .ok b := by
  cases x with
  | error e => exact ⟨fun h => (by cases h), fun ⟨_, h, _⟩ => by cases h⟩
  | ok a => exact ⟨fun h => ⟨a, rfl, h⟩, fun ⟨_, ha, h⟩ => by cases ha; exact h⟩

/-- A check of every element of a list succeeds where it does for each of them. -/
theorem forM_eq_ok_iff {ε α : Type} {f : α → Except ε Unit} {l : List α} :
    l.forM f = .ok () ↔ ∀ a ∈ l, f a = .ok () := by
  induction l with
  | nil => exact ⟨fun _ a ha => (by cases ha), fun _ => rfl⟩
  | cons b rest ih =>
      rw [List.forall_mem_cons, ← ih]
      exact bind_eq_ok_iff.trans
        ⟨fun ⟨_, hb, hrest⟩ => ⟨hb, hrest⟩, fun ⟨hb, hrest⟩ => ⟨_, hb, hrest⟩⟩

namespace Draft

/-! ## Places -/

/-- A walk with the places `before` placed these statements, and left the places `after`. -/
structure PlacedOnce (r : Draft) (before : Std.HashSet StmtId) (ids : List StmtId)
    (after : Std.HashSet StmtId) : Prop where
  contained : ∀ id ∈ ids, r.contains id = true
  fresh : ∀ id ∈ ids, id ∉ before
  nodup : ids.Nodup
  mem_after : ∀ id, id ∈ after ↔ id ∈ before ∨ id ∈ ids

section Places

variable {r : Draft} {before between after : Std.HashSet StmtId}

theorem PlacedOnce.nil (r : Draft) (before : Std.HashSet StmtId) : r.PlacedOnce before [] before :=
  ⟨by simp, by simp, List.nodup_nil, by simp⟩

/-- One walk after the other. -/
theorem PlacedOnce.append {ids others : List StmtId} (h : r.PlacedOnce before ids between)
    (h' : r.PlacedOnce between others after) : r.PlacedOnce before (ids ++ others) after where
  contained id hid := by
    rcases List.mem_append.mp hid with hid | hid
    · exact h.contained id hid
    · exact h'.contained id hid
  fresh id hid := by
    rcases List.mem_append.mp hid with hid | hid
    · exact h.fresh id hid
    · exact fun hbefore => h'.fresh id hid ((h.mem_after id).mpr (Or.inl hbefore))
  nodup := by
    refine List.nodup_append.mpr ⟨h.nodup, h'.nodup, ?_⟩
    rintro id hid other hother rfl
    exact h'.fresh id hother ((h.mem_after id).mpr (Or.inr hid))
  mem_after id := by
    rw [h'.mem_after, h.mem_after, List.mem_append, or_assoc]

theorem placedOnce_of_place {id : StmtId} (h : r.place before id = .ok after) :
    r.PlacedOnce before [id] after := by
  unfold place at h
  by_cases hcontains : r.contains id = true
  · by_cases hplaced : before.contains id = true
    · simp [hcontains, hplaced] at h
    · simp only [hcontains, hplaced, Bool.not_true, Bool.false_eq_true, if_false] at h
      obtain rfl := Except.ok.inj h
      constructor
      · simpa using hcontains
      · simpa using hplaced
      · simp
      · intro other
        rw [Std.HashSet.mem_insert, List.mem_singleton, or_comm, beq_iff_eq, eq_comm]
  · simp [hcontains] at h

theorem exists_place {id : StmtId} (hcontains : r.contains id = true) (hfresh : id ∉ before) :
    ∃ after, r.place before id = .ok after := by
  have hplaced : before.contains id = false := by simpa using hfresh
  exact ⟨before.insert id, by simp [place, hcontains, hplaced]⟩

theorem placedOnce_of_children {ids : List StmtId} (h : ids.foldlM r.place before = .ok after) :
    r.PlacedOnce before ids after := by
  induction ids generalizing before with
  | nil =>
      obtain rfl := Except.ok.inj h
      exact .nil r before
  | cons id rest ih =>
      obtain ⟨between, hplace, hrest⟩ := bind_eq_ok_iff.mp h
      exact (placedOnce_of_place hplace).append (ih hrest)

/-- Statements that may be placed are. -/
theorem exists_places {ids : List StmtId} (hcontained : ∀ id ∈ ids, r.contains id = true)
    (hfresh : ∀ id ∈ ids, id ∉ before) (hnodup : ids.Nodup) :
    ∃ after, ids.foldlM r.place before = .ok after := by
  induction ids generalizing before with
  | nil => exact ⟨before, rfl⟩
  | cons id rest ih =>
      obtain ⟨hself, hrest⟩ := List.nodup_cons.mp hnodup
      obtain ⟨between, hplace⟩ :=
        exists_place (hcontained id List.mem_cons_self) (hfresh id List.mem_cons_self)
      have hplaced := placedOnce_of_place hplace
      have hfresh' : ∀ other ∈ rest, other ∉ between := by
        intro other hother hmem
        rcases (hplaced.mem_after other).mp hmem with hmem | hmem
        · exact hfresh other (List.mem_cons_of_mem id hother) hmem
        · obtain rfl := List.mem_singleton.mp hmem
          exact hself hother
      obtain ⟨after, hafter⟩ :=
        ih (fun other hother => hcontained other (List.mem_cons_of_mem id hother)) hfresh' hrest
      exact ⟨after, bind_eq_ok_iff.mpr ⟨between, hplace, hafter⟩⟩

end Places

/-! ## The promises -/

/-- The references of one statement lead where they should. -/
structure SoundReferences (r : Draft) (s : Stmt) : Prop where
  bodies : ∀ id ∈ s.bodies, (r.stmt? id).any (·.isBlock) = true
  targets : ∀ id ∈ s.jumpTargets, (r.stmt? id).any (·.isLabel) = true
  idents : ∀ id ∈ identsOf s, id.index < r.idents.size

instance (r : Draft) (s : Stmt) : Decidable (r.SoundReferences s) :=
  decidable_of_iff
    ((∀ id ∈ s.bodies, (r.stmt? id).any (·.isBlock) = true) ∧
      (∀ id ∈ s.jumpTargets, (r.stmt? id).any (·.isLabel) = true) ∧
      ∀ id ∈ identsOf s, id.index < r.idents.size)
    ⟨fun ⟨hbodies, htargets, hidents⟩ => ⟨hbodies, htargets, hidents⟩,
      fun h => ⟨h.bodies, h.targets, h.idents⟩⟩

/-- A draft whose references fit together. -/
structure WellFormed (r : Draft) : Prop where
  body : (r.stmt? r.body).any (·.isBlock) = true
  contained : ∀ s ∈ r.stmts.toList, ∀ id ∈ s.children, r.contains id = true
  /-- No statement has two places, and the body has none inside another statement. -/
  once : (r.body :: r.stmts.toList.flatMap Stmt.children).Nodup
  references : ∀ s ∈ r.stmts.toList, r.SoundReferences s

theorem checkBlock_eq_ok_iff {r : Draft} {id : StmtId} :
    r.checkBlock id = .ok () ↔ (r.stmt? id).any (·.isBlock) = true := by
  unfold checkBlock
  cases hs : r.stmt? id with
  | none => simp
  | some s =>
      by_cases hblock : s.isBlock = true
      · simp [hblock]
      · simp only [hblock, Bool.false_eq_true, if_false, Option.any_some]
        split <;> simp

theorem checkLabel_eq_ok_iff {r : Draft} {id : StmtId} :
    r.checkLabel id = .ok () ↔ (r.stmt? id).any (·.isLabel) = true := by
  unfold checkLabel
  cases hs : r.stmt? id with
  | none => simp
  | some s => by_cases hlabel : s.isLabel = true <;> simp [hlabel]

theorem checkIdent_eq_ok_iff {r : Draft} {id : IdentId} :
    r.checkIdent id = .ok () ↔ id.index < r.idents.size := by
  by_cases h : id.index < r.idents.size <;> simp [checkIdent, h]

/-- When the check of one statement succeeds, and what it leaves. -/
theorem checkStmt_eq_ok_iff {r : Draft} {before after : Std.HashSet StmtId} {s : Stmt} :
    r.checkStmt before s = .ok after ↔
      s.children.foldlM r.place before = .ok after ∧ r.SoundReferences s := by
  constructor
  · intro h
    obtain ⟨placed, hchildren, h⟩ := bind_eq_ok_iff.mp h
    obtain ⟨_, hbodies, h⟩ := bind_eq_ok_iff.mp h
    obtain ⟨_, htargets, h⟩ := bind_eq_ok_iff.mp h
    obtain ⟨_, hidents, h⟩ := bind_eq_ok_iff.mp h
    obtain rfl := Except.ok.inj h
    refine ⟨hchildren, ?_, ?_, ?_⟩
    · exact fun id hid => checkBlock_eq_ok_iff.mp (forM_eq_ok_iff.mp hbodies id hid)
    · exact fun id hid => checkLabel_eq_ok_iff.mp (forM_eq_ok_iff.mp htargets id hid)
    · exact fun id hid => checkIdent_eq_ok_iff.mp (forM_eq_ok_iff.mp hidents id hid)
  · rintro ⟨hchildren, hreferences⟩
    have hbodies : s.bodies.forM r.checkBlock = .ok () := forM_eq_ok_iff.mpr fun id hid =>
      checkBlock_eq_ok_iff.mpr (hreferences.bodies id hid)
    have htargets : s.jumpTargets.forM r.checkLabel = .ok () := forM_eq_ok_iff.mpr fun id hid =>
      checkLabel_eq_ok_iff.mpr (hreferences.targets id hid)
    have hidents : (identsOf s).forM r.checkIdent = .ok () := forM_eq_ok_iff.mpr fun id hid =>
      checkIdent_eq_ok_iff.mpr (hreferences.idents id hid)
    exact bind_eq_ok_iff.mpr ⟨after, hchildren, bind_eq_ok_iff.mpr ⟨(), hbodies,
      bind_eq_ok_iff.mpr ⟨(), htargets, bind_eq_ok_iff.mpr ⟨(), hidents, rfl⟩⟩⟩⟩

/-- What the checks of statements one after the other establish. -/
theorem placedOnce_of_checkStmts {r : Draft} {before after : Std.HashSet StmtId} {stmts : List Stmt}
    (h : stmts.foldlM r.checkStmt before = .ok after) :
    r.PlacedOnce before (stmts.flatMap Stmt.children) after ∧
      ∀ s ∈ stmts, r.SoundReferences s := by
  induction stmts generalizing before with
  | nil =>
      obtain rfl := Except.ok.inj h
      exact ⟨.nil r before, by simp⟩
  | cons s rest ih =>
      obtain ⟨between, hs, hrest⟩ := bind_eq_ok_iff.mp h
      obtain ⟨hchildren, hreferences⟩ := checkStmt_eq_ok_iff.mp hs
      obtain ⟨hplaced, hreferences'⟩ := ih hrest
      exact ⟨(placedOnce_of_children hchildren).append hplaced,
        List.forall_mem_cons.mpr ⟨hreferences, hreferences'⟩⟩

/-- Statements whose children may be placed and whose references are sound are accepted. -/
theorem exists_checkStmts {r : Draft} {before : Std.HashSet StmtId} {stmts : List Stmt}
    (hcontained : ∀ id ∈ stmts.flatMap Stmt.children, r.contains id = true)
    (hfresh : ∀ id ∈ stmts.flatMap Stmt.children, id ∉ before)
    (hnodup : (stmts.flatMap Stmt.children).Nodup)
    (hreferences : ∀ s ∈ stmts, r.SoundReferences s) :
    ∃ after, stmts.foldlM r.checkStmt before = .ok after := by
  induction stmts generalizing before with
  | nil => exact ⟨before, rfl⟩
  | cons s rest ih =>
      rw [List.flatMap_cons] at hcontained hfresh hnodup
      obtain ⟨hfirst, hlater, hapart⟩ := List.nodup_append.mp hnodup
      obtain ⟨between, hchildren⟩ := exists_places
        (fun id hid => hcontained id (List.mem_append_left _ hid))
        (fun id hid => hfresh id (List.mem_append_left _ hid)) hfirst
      have hplaced := placedOnce_of_children hchildren
      have hfresh' : ∀ id ∈ rest.flatMap Stmt.children, id ∉ between := by
        intro id hid hmem
        rcases (hplaced.mem_after id).mp hmem with hmem | hmem
        · exact hfresh id (List.mem_append_right _ hid) hmem
        · exact hapart id hmem id hid rfl
      obtain ⟨hs, hrest⟩ := List.forall_mem_cons.mp hreferences
      obtain ⟨after, hafter⟩ := ih (fun id hid => hcontained id (List.mem_append_right _ hid))
        hfresh' hlater hrest
      exact ⟨after, bind_eq_ok_iff.mpr
        ⟨between, checkStmt_eq_ok_iff.mpr ⟨hchildren, hs⟩, hafter⟩⟩

/-- The check accepts exactly the well-formed drafts. -/
theorem check_eq_ok_iff {r : Draft} : r.check = .ok () ↔ r.WellFormed := by
  constructor
  · intro h
    obtain ⟨_, hbody, h⟩ := bind_eq_ok_iff.mp h
    obtain ⟨after, hstmts, _⟩ := bind_eq_ok_iff.mp h
    obtain ⟨hplaced, hreferences⟩ := placedOnce_of_checkStmts hstmts
    constructor
    case body => exact checkBlock_eq_ok_iff.mp hbody
    case contained =>
      exact fun s hs id hid => hplaced.contained id (List.mem_flatMap.mpr ⟨s, hs, hid⟩)
    case once =>
      refine List.nodup_cons.mpr ⟨?_, hplaced.nodup⟩
      exact fun hmem => hplaced.fresh r.body hmem (by simp)
    case references => exact hreferences
  · rintro ⟨hbody, hcontained, honce, hreferences⟩
    obtain ⟨hfresh, hnodup⟩ := List.nodup_cons.mp honce
    have hcontained' : ∀ id ∈ r.stmts.toList.flatMap Stmt.children, r.contains id = true := by
      intro id hid
      obtain ⟨s, hs, hmem⟩ := List.mem_flatMap.mp hid
      exact hcontained s hs id hmem
    have hfresh' : ∀ id ∈ r.stmts.toList.flatMap Stmt.children,
        id ∉ ({r.body} : Std.HashSet StmtId) := by
      intro id hid hmem
      obtain rfl : r.body = id := by simpa using hmem
      exact hfresh hid
    obtain ⟨after, hstmts⟩ := exists_checkStmts hcontained' hfresh' hnodup hreferences
    exact bind_eq_ok_iff.mpr ⟨(), checkBlock_eq_ok_iff.mpr hbody,
      bind_eq_ok_iff.mpr ⟨after, hstmts, rfl⟩⟩

end Draft

theorem Routine.wellFormed (r : Routine) : r.toDraft.WellFormed :=
  Draft.check_eq_ok_iff.mp r.valid

theorem Routine.ofDraft_toDraft (r : Routine) : Routine.ofDraft r.toDraft = .ok r := by
  unfold ofDraft
  split
  · rfl
  · next heq => rw [r.valid] at heq; cases heq

theorem Routine.toDraft_of_ofDraft {draft : Draft} {r : Routine}
    (h : Routine.ofDraft draft = .ok r) : r.toDraft = draft := by
  unfold ofDraft at h
  split at h
  · obtain rfl := Except.ok.inj h
    rfl
  · cases h

end RoutineEmulator
