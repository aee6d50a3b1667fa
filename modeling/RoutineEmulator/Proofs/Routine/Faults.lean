import RoutineEmulator.Proofs.Routine.Containment
import RoutineEmulator.Proofs.Routine.Mentions
import Mathlib.Data.List.Nodup
/-!
Which drafts are routines, and what a fault says.

`Draft.Coherent` states what it takes for the references of a draft to fit together, without the
check, and `Draft.Violates` states what each fault reports. The check accepts the coherent drafts
and no others, and the fault that it reports is one that the draft has. The check counts places as it
goes, so a fault of sharing rests on what was placed before it.
-/

namespace RoutineEmulator

/-! ## Computations that fail -/

/-- A sequence fails where one of its parts does. -/
theorem bind_eq_error_iff {ε α β : Type} {x : Except ε α} {f : α → Except ε β} {e : ε} :
    (x >>= f) = .error e ↔ x = .error e ∨ ∃ a, x = .ok a ∧ f a = .error e := by
  cases x with
  | error e' =>
      constructor
      · intro h
        obtain rfl := Except.error.inj h
        exact Or.inl rfl
      · rintro (h | ⟨a, ha, _⟩)
        · obtain rfl := Except.error.inj h
          rfl
        · cases ha
  | ok a =>
      constructor
      · intro h
        exact Or.inr ⟨a, rfl, h⟩
      · rintro (h | ⟨a', ha, h⟩)
        · cases h
        · cases ha
          exact h

/-- A check of every element of a list fails at one of them. -/
theorem exists_of_forM_eq_error {ε α : Type} {f : α → Except ε Unit} {l : List α} {e : ε}
    (h : l.forM f = .error e) : ∃ a ∈ l, f a = .error e := by
  induction l with
  | nil => cases h
  | cons a rest ih =>
      rcases bind_eq_error_iff.mp h with h | ⟨_, _, h⟩
      · exact ⟨a, List.mem_cons_self, h⟩
      · obtain ⟨b, hmem, hb⟩ := ih h
        exact ⟨b, List.mem_cons_of_mem a hmem, hb⟩

/-- A walk along a list fails at one of its elements, in the state that those before it left. -/
theorem exists_of_foldlM_eq_error {ε σ α : Type} {f : σ → α → Except ε σ} {l : List α} {s : σ}
    {e : ε} (h : l.foldlM f s = .error e) :
    ∃ before a after s', l = before ++ a :: after ∧ before.foldlM f s = .ok s' ∧
      f s' a = .error e := by
  induction l generalizing s with
  | nil => cases h
  | cons a rest ih =>
      rcases bind_eq_error_iff.mp h with h | ⟨s', hs', h⟩
      · exact ⟨[], a, rest, s, rfl, rfl, h⟩
      · obtain ⟨before, b, after, s'', rfl, hbefore, hb⟩ := ih h
        refine ⟨a :: before, b, after, s'', rfl, ?_, hb⟩
        exact bind_eq_ok_iff.mpr ⟨s', hs', hbefore⟩

namespace Draft

/-! ## Coherent drafts -/

/-- The statements that stand in statements, in the order of the arena. -/
def nested (r : Draft) : List StmtId :=
  r.stmts.toList.flatMap Stmt.children

/-- The references of a draft fit together. -/
structure Coherent (r : Draft) : Prop where
  body : ∃ stmts, r.stmt? r.body = some (.block stmts)
  children : ∀ s ∈ r.stmts, ∀ id ∈ s.children, ∃ t, r.stmt? id = some t
  /-- No statement is nested twice. -/
  once : ∀ id, r.nested.count id ≤ 1
  /-- The body is nested nowhere. -/
  root : r.body ∉ r.nested
  bodies : ∀ s ∈ r.stmts, ∀ id ∈ s.bodies, ∃ stmts, r.stmt? id = some (.block stmts)
  targets : ∀ s ∈ r.stmts, ∀ id ∈ s.jumpTargets, ∃ name, r.stmt? id = some (.label name)
  idents : ∀ s ∈ r.stmts, ∀ id, s.Mentions id → ∃ ident, r.ident? id = some ident

/-- What a fault says of a draft. -/
def Violates (r : Draft) : ArenaFault → Prop
  | .danglingStatement id =>
    r.stmt? id = none ∧
      (id = r.body ∨ ∃ s ∈ r.stmts, id ∈ s.children ∨ id ∈ s.jumpTargets)
  | .danglingIdentifier id => r.ident? id = none ∧ ∃ s ∈ r.stmts, s.Mentions id
  | .bodyNotBlock id => id = r.body ∧ ∃ t, r.stmt? id = some t ∧ t.isBlock = false
  | .sharedStatement id => 2 ≤ (r.body :: r.nested).count id
  | .notALabel id =>
    (∃ s ∈ r.stmts, id ∈ s.jumpTargets) ∧ ∃ t, r.stmt? id = some t ∧ t.isLabel = false
  | .notABlock id =>
    (∃ s ∈ r.stmts, id ∈ s.bodies) ∧ ∃ t, r.stmt? id = some t ∧ t.isBlock = false

section Coherent

variable {r : Draft} {id : StmtId}

theorem any_isBlock_iff :
    (r.stmt? id).any (·.isBlock) = true ↔ ∃ stmts, r.stmt? id = some (.block stmts) := by
  constructor
  · exact exists_block_of_any
  · rintro ⟨stmts, h⟩
    rw [h]
    rfl

theorem any_isLabel_iff :
    (r.stmt? id).any (·.isLabel) = true ↔ ∃ name, r.stmt? id = some (.label name) := by
  constructor
  · intro h
    obtain ⟨s, hs, hlabel⟩ := (Option.any_eq_true _ _).mp h
    cases s with
    | label name => exact ⟨name, hs⟩
    | _ => cases hlabel
  · rintro ⟨name, h⟩
    rw [h]
    rfl

theorem contains_iff : r.contains id = true ↔ ∃ s, r.stmt? id = some s := by
  constructor
  · intro h
    exact ⟨_, Array.getElem?_eq_getElem (of_decide_eq_true h)⟩
  · rintro ⟨s, hs⟩
    exact decide_eq_true (Array.getElem?_eq_some_iff.mp hs).1

theorem ident?_iff {ident : IdentId} :
    ident.index < r.idents.size ↔ ∃ i, r.ident? ident = some i := by
  constructor
  · intro h
    exact ⟨_, Array.getElem?_eq_getElem h⟩
  · rintro ⟨i, hi⟩
    exact (Array.getElem?_eq_some_iff.mp hi).1

/-- The promises of the check are the conditions on a coherent draft. -/
theorem wellFormed_iff_coherent : r.WellFormed ↔ r.Coherent := by
  constructor
  · intro h
    obtain ⟨hroot, honce⟩ := List.nodup_cons.mp h.once
    constructor
    case body => exact h.exists_body
    case children =>
      intro s hs id hid
      exact contains_iff.mp (h.contained s hs.val id hid)
    case once =>
      intro id
      exact List.nodup_iff_count_le_one.mp honce id
    case root => exact hroot
    case bodies =>
      intro s hs id hid
      exact any_isBlock_iff.mp ((h.references s hs.val).bodies id hid)
    case targets =>
      intro s hs id hid
      exact any_isLabel_iff.mp ((h.references s hs.val).targets id hid)
    case idents =>
      intro s hs id hid
      exact ident?_iff.mp ((h.references s hs.val).idents id (mem_identsOf_iff.mpr hid))
  · intro h
    constructor
    case body => exact any_isBlock_iff.mpr h.body
    case contained =>
      intro s hs id hid
      exact contains_iff.mpr (h.children s ⟨hs⟩ id hid)
    case once => exact List.nodup_cons.mpr ⟨h.root, List.nodup_iff_count_le_one.mpr h.once⟩
    case references =>
      intro s hs
      constructor
      · intro id hid
        exact any_isBlock_iff.mpr (h.bodies s ⟨hs⟩ id hid)
      · intro id hid
        exact any_isLabel_iff.mpr (h.targets s ⟨hs⟩ id hid)
      · intro id hid
        exact ident?_iff.mpr (h.idents s ⟨hs⟩ id (mem_identsOf_iff.mp hid))

end Coherent

/-! ## Faults of the single checks -/

section Faults

variable {r : Draft} {fault : ArenaFault}

/-- A check for a block faults on a reference that leads nowhere or to something else. -/
theorem fault_of_checkBlock {id : StmtId} (h : r.checkBlock id = .error fault) :
    (fault = .danglingStatement id ∧ r.stmt? id = none) ∨
      ((fault = if id = r.body then .bodyNotBlock id else .notABlock id) ∧
        ∃ t, r.stmt? id = some t ∧ t.isBlock = false) := by
  unfold checkBlock at h
  split at h
  · rename_i hnone
    exact Or.inl ⟨(Except.error.inj h).symm, hnone⟩
  · rename_i t ht
    split at h
    · cases h
    · rename_i hblock
      refine Or.inr ⟨?_, t, ht, by simpa using hblock⟩
      split at h
      · rename_i hbody
        rw [if_pos hbody]
        exact (Except.error.inj h).symm
      · rename_i hbody
        rw [if_neg hbody]
        exact (Except.error.inj h).symm

theorem fault_of_checkLabel {id : StmtId} (h : r.checkLabel id = .error fault) :
    (fault = .danglingStatement id ∧ r.stmt? id = none) ∨
      (fault = .notALabel id ∧ ∃ t, r.stmt? id = some t ∧ t.isLabel = false) := by
  unfold checkLabel at h
  split at h
  · rename_i hnone
    exact Or.inl ⟨(Except.error.inj h).symm, hnone⟩
  · rename_i t ht
    split at h
    · cases h
    · rename_i hlabel
      exact Or.inr ⟨(Except.error.inj h).symm, t, ht, by simpa using hlabel⟩

theorem fault_of_checkIdent {id : IdentId} (h : r.checkIdent id = .error fault) :
    fault = .danglingIdentifier id ∧ r.ident? id = none := by
  unfold checkIdent at h
  split at h
  · cases h
  · rename_i hlt
    exact ⟨(Except.error.inj h).symm, Array.getElem?_eq_none (Nat.le_of_not_lt hlt)⟩

/-- A statement has no place where it lies outside the arena or has one already. -/
theorem fault_of_place {placed : Std.HashSet StmtId} {child : StmtId}
    (h : r.place placed child = .error fault) :
    (fault = .danglingStatement child ∧ r.stmt? child = none) ∨
      (fault = .sharedStatement child ∧ child ∈ placed) := by
  unfold place at h
  split at h
  · rename_i hcontains
    refine Or.inl ⟨(Except.error.inj h).symm, ?_⟩
    apply Option.eq_none_iff_forall_ne_some.mpr
    intro s hs
    simp [contains_iff.mpr ⟨s, hs⟩] at hcontains
  · split at h
    · rename_i hplaced
      exact Or.inr ⟨(Except.error.inj h).symm, Std.HashSet.mem_iff_contains.mpr hplaced⟩
    · cases h

end Faults

/-! ## The fault of a check -/

section Check

variable {r : Draft} {fault : ArenaFault}

/-- An element that a list has before this place stands in it twice. -/
theorem two_le_count {α : Type} [BEq α] [LawfulBEq α] {before after : List α} {a : α}
    (h : a ∈ before) : 2 ≤ (before ++ a :: after).count a := by
  have hpos : 0 < before.count a := List.count_pos_iff.mpr h
  rw [List.count_append, List.count_cons_self]
  omega

theorem mem_children_of_mem_bodies {s : Stmt} {id : StmtId} (h : id ∈ s.bodies) :
    id ∈ s.children := by
  cases s with
  | block stmts => cases h
  | _ => exact h

/-- The places that were given before this child are the body and what is nested before it. -/
theorem violates_of_children {earlier later : List Stmt} {s : Stmt}
    (hstmts : r.stmts.toList = earlier ++ s :: later) {placed : Std.HashSet StmtId}
    (hplaced : r.PlacedOnce {r.body} (earlier.flatMap Stmt.children) placed)
    (h : s.children.foldlM r.place placed = .error fault) : r.Violates fault := by
  obtain ⟨before, child, after, between, hchildren, hbetween, hfault⟩ :=
    exists_of_foldlM_eq_error h
  have hs : s ∈ r.stmts := Array.mem_toList_iff.mp (by rw [hstmts]; simp)
  rcases fault_of_place hfault with ⟨rfl, hnone⟩ | ⟨rfl, hmem⟩
  · exact ⟨hnone, Or.inr ⟨s, hs, Or.inl (by rw [hchildren]; simp)⟩⟩
  · have hall := hplaced.append (placedOnce_of_children hbetween)
    have hfront : child ∈ r.body :: (earlier.flatMap Stmt.children ++ before) := by
      rcases (hall.mem_after child).mp hmem with hbody | hmem
      · obtain rfl : r.body = child := by simpa using hbody
        exact List.mem_cons_self
      · exact List.mem_cons_of_mem _ hmem
    show 2 ≤ (r.body :: r.nested).count child
    have hsplit : r.body :: r.nested = (r.body :: (earlier.flatMap Stmt.children ++ before)) ++
        child :: (after ++ later.flatMap Stmt.children) := by
      simp [nested, hstmts, hchildren]
    rw [hsplit]
    exact two_le_count hfront

/-- A fault in one statement, once the body was found to be a block. -/
theorem violates_of_checkStmt (hbody : r.checkBlock r.body = .ok ()) {earlier later : List Stmt}
    {s : Stmt} (hstmts : r.stmts.toList = earlier ++ s :: later) {placed : Std.HashSet StmtId}
    (hplaced : r.PlacedOnce {r.body} (earlier.flatMap Stmt.children) placed)
    (h : r.checkStmt placed s = .error fault) : r.Violates fault := by
  have hs : s ∈ r.stmts := Array.mem_toList_iff.mp (by rw [hstmts]; simp)
  -- children are checked first, then bodies, jump targets and identifiers
  rcases bind_eq_error_iff.mp h with h | ⟨placed', _, h⟩
  · exact violates_of_children hstmts hplaced h
  rcases bind_eq_error_iff.mp h with h | ⟨_, _, h⟩
  · obtain ⟨id, hid, hfault⟩ := exists_of_forM_eq_error h
    rcases fault_of_checkBlock hfault with ⟨rfl, hnone⟩ | ⟨rfl, ht⟩
    · exact ⟨hnone, Or.inr ⟨s, hs, Or.inl (mem_children_of_mem_bodies hid)⟩⟩
    · -- the body of the routine passed this check before
      have hne : id ≠ r.body := by
        rintro rfl
        rw [hbody] at hfault
        cases hfault
      rw [if_neg hne]
      exact ⟨⟨s, hs, hid⟩, ht⟩
  rcases bind_eq_error_iff.mp h with h | ⟨_, _, h⟩
  · obtain ⟨id, hid, hfault⟩ := exists_of_forM_eq_error h
    rcases fault_of_checkLabel hfault with ⟨rfl, hnone⟩ | ⟨rfl, ht⟩
    · exact ⟨hnone, Or.inr ⟨s, hs, Or.inr hid⟩⟩
    · exact ⟨⟨s, hs, hid⟩, ht⟩
  rcases bind_eq_error_iff.mp h with h | ⟨_, _, h⟩
  · obtain ⟨id, hid, hfault⟩ := exists_of_forM_eq_error h
    obtain ⟨rfl, hnone⟩ := fault_of_checkIdent hfault
    exact ⟨hnone, s, hs, mem_identsOf_iff.mp hid⟩
  · cases h

/-- The check reports a fault that the draft has. -/
theorem violates_of_check (h : r.check = .error fault) : r.Violates fault := by
  rcases bind_eq_error_iff.mp h with h | ⟨_, hbody, h⟩
  · rcases fault_of_checkBlock h with ⟨rfl, hnone⟩ | ⟨rfl, ht⟩
    · exact ⟨hnone, Or.inl rfl⟩
    · rw [if_pos rfl]
      exact ⟨rfl, ht⟩
  · rcases bind_eq_error_iff.mp h with h | ⟨_, _, h⟩
    · obtain ⟨earlier, s, later, placed, hstmts, hearlier, hfault⟩ := exists_of_foldlM_eq_error h
      exact violates_of_checkStmt hbody hstmts (placedOnce_of_checkStmts hearlier).1 hfault
    · cases h

end Check

end Draft

/-- **Drafts are accepted exactly where their references fit together.** A draft makes a routine if
and only if it is coherent; the routine is the draft itself, and a draft that is refused has the
fault that is reported, of that kind and at that reference. -/
theorem Routine.ofDraft_accepts_coherent (d : Draft) :
    ((∃ r, Routine.ofDraft d = .ok r) ↔ d.Coherent) ∧
      (∀ r, Routine.ofDraft d = .ok r → r.toDraft = d) ∧
      ∀ fault, Routine.ofDraft d = .error fault → d.Violates fault := by
  have hcheck : d.check = .ok () ↔ d.Coherent :=
    Draft.check_eq_ok_iff.trans Draft.wellFormed_iff_coherent
  unfold Routine.ofDraft
  split
  · rename_i hok
    refine ⟨⟨fun _ => hcheck.mp hok, fun _ => ⟨_, rfl⟩⟩, ?_, ?_⟩
    · intro r hr
      obtain rfl := Except.ok.inj hr
      rfl
    · intro fault hfault
      cases hfault
  · rename_i fault hfault
    refine ⟨⟨?_, ?_⟩, ?_, ?_⟩
    · rintro ⟨r, hr⟩
      cases hr
    · intro hcoherent
      rw [hcheck.mpr hcoherent] at hfault
      cases hfault
    · intro r hr
      cases hr
    · intro fault' hfault'
      obtain rfl := Except.error.inj hfault'
      exact Draft.violates_of_check hfault

end RoutineEmulator
