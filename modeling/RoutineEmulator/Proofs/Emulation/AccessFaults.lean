import RoutineEmulator.Proofs.Emulation.Dereferences
/-!
Faults of memory accesses in evaluations.

An evaluation reads memory in two ways. A variable that lies in memory is read strictly: what is
wrong with its address or its width is a fault of the evaluation. A dereference is read softly: what
cannot be read there counts as zero. So a fault of an access in an evaluation without calls is that
of a variable which the expression mentions, however deep it stands and whatever is computed from it.
-/

namespace RoutineEmulator

/-- Only variables in memory can fail to be read. -/
theorem Machine.storage_of_varValue_eq_error {s : Machine} {var : Identifier} {fault : EmulationError}
    (h : s.varValue var = .error fault) : var.storage = .local ∨ var.storage = .global := by
  cases hstorage : var.storage with
  | «local» => exact .inl rfl
  | global => exact .inr rfl
  | register | parameter =>
      rw [varValue, hstorage] at h
      cases h

/-- The routine has a variable of this number, it lies in memory, and reading it has the fault. -/
def Draft.VariableFaults (r : Draft) (s : Machine) (id : IdentId) (fault : EmulationError) : Prop :=
  ∃ var, r.ident? id = some var ∧ (var.storage = .local ∨ var.storage = .global) ∧
    s.varValue var = .error fault

namespace Evaluation

open Work

/-! ## Where faults of accesses come from -/

/-- A computation that only looks at the machine, and that on this one has no faults of accesses but
some expected ones. -/
structure FaultsWithin (s : Machine) (expected : EmulationError → Prop) {α : Type}
    (work : Run α) : Prop where
  inspects : work.Inspects
  expected : ∀ own log fault, (work.runOn ⟨own, s, log⟩).1 = .error fault →
    fault.ofAccess = true → expected fault

section

variable {r : Draft} {s : Machine} {expected : EmulationError → Prop}

theorem faultsWithin_fail {α : Type} {e : EmulationError} (h : e.ofAccess = false) :
    FaultsWithin s expected (Work.fail e : Run α) where
  inspects := Inspects.fail e
  expected own log fault hrun haccess := by
    obtain rfl : e = fault := Except.error.inj hrun
    rw [h] at haccess
    cases haccess

theorem faultsWithin_ask {α : Type} {question : Machine → Except EmulationError α}
    (h : ∀ fault, question s = .error fault → fault.ofAccess = true → expected fault) :
    FaultsWithin s expected (Work.ask question : Run α) where
  inspects := Inspects.ask question
  expected own log fault hrun haccess := by
    rw [runOn_ask] at hrun
    exact h fault hrun haccess

/-- The second part of a sequence has the machine of the first one, so that it may fail as it would
fail alone. -/
theorem FaultsWithin.bind {α β : Type} {work : Run α} {next : α → Run β}
    (h : FaultsWithin s expected work) (hnext : ∀ a, FaultsWithin s expected (next a)) :
    FaultsWithin s expected (work >>= next) where
  inspects := h.inspects.bind fun a => (hnext a).inspects
  expected own log fault hrun haccess := by
    rcases h.inspects.ok_or_error ⟨own, s, log⟩ with ⟨a, hfirst⟩ | ⟨e, hfirst⟩
    · rw [runOn_bind_of_ok hfirst] at hrun
      exact (hnext a).expected own log fault hrun haccess
    · rw [runOn_bind_of_error hfirst] at hrun
      obtain rfl : e = fault := Except.error.inj hrun
      exact h.expected own log e (by rw [hfirst]) haccess

theorem computes_faultsWithin (s : Machine) (expected : EmulationError → Prop) :
    Computes fun _ work => FaultsWithin s expected work where
  pure a := ⟨Inspects.pure a, fun _ _ _ hrun => by cases hrun⟩
  fail _ haccess := faultsWithin_fail haccess
  bind := FaultsWithin.bind
  machine := ⟨Inspects.machine, fun _ _ _ hrun => by cases hrun⟩
  ask hspares := faultsWithin_ask fun fault hfault haccess => by
    rw [(hspares s).ofAccess fault hfault] at haccess
    cases haccess

/-- The faults of a variable are expected where its value is asked for. -/
theorem faultsWithin_readIdent {id : IdentId}
    (h : ∀ fault, r.VariableFaults s id fault → expected fault) :
    FaultsWithin s expected (readIdent r id) := by
  unfold readIdent identOf
  cases hvar : r.ident? id with
  | none => exact faultsWithin_fail rfl
  | some var =>
      have hask : FaultsWithin s expected (Work.ask (·.varValue var)) :=
        faultsWithin_ask fun fault hfault _ =>
          h fault ⟨var, hvar, Machine.storage_of_varValue_eq_error hfault, hfault⟩
      exact hask.bind fun _ => (computes_faultsWithin s expected).pure _

/-- Without calls, an evaluation expects the faults of the variables that are mentioned. -/
theorem faultsWithin_eval {e : Expr} (hfree : e.CallFree) :
    FaultsWithin s (fun fault => ∃ id, e.Mentions id ∧ r.VariableFaults s id fault) (eval r e) :=
  (computes_faultsWithin s _).eval r e
    ⟨fun id hid => faultsWithin_readIdent fun _ hfault => ⟨id, hid, hfault⟩, .inl hfree⟩

/-! ## Dereferences are soft -/

/-- A dereference fails as its target does. -/
theorem eval_deref_eq_error_iff {operand : Expr} {session : Session} {fault : EmulationError} :
    ((eval r (.op .ptr [operand])).runOn session).1 = .error fault ↔
      ((derefTarget r operand).runOn session).1 = .error fault := by
  rw [eval_deref, runOn_bind]
  split
  · rename_i hrun
    rw [hrun]
    constructor <;> rintro ⟨⟩
  · rename_i hrun
    simp [hrun]

@[simp] theorem signExtend_zero (size : Nat) : signExtend 0 size = 0 := by
  unfold signExtend
  split <;> rfl

/-- What cannot be read counts as zero. -/
theorem runOn_load_of_not_read {session : Session} {target : DerefTarget}
    (h : ∀ word, session.machine.read target.address target.size ≠ .ok word) :
    (load target).runOn session = (.ok 0, session) := by
  have hzero : session.machine.readOrZero target.address target.size = 0 := by
    unfold Machine.readOrZero
    split
    · rename_i word hread
      exact (h word hread).elim
    · rfl
  rw [load, runOn_bind_of_ok runOn_machine, hzero]
  dsimp only
  rw [signExtend_zero]
  split <;> rfl

end

/-- **Dereferences fail softly.** Where an expression without calls cannot be evaluated for a fault of
an access to memory, one of its local or global variables cannot be read for the same fault. No
dereference adds one: it fails just where its target is not found, and it has a value for every
target, whatever the address, the width and the pages there. Where the target cannot be read, the
value is zero. -/
theorem eval_fails_softly (r : Draft) {e : Expr} (hfree : e.CallFree) (session : Session) :
    (∀ fault, ((eval r e).runOn session).1 = .error fault → fault.ofAccess = true →
      ∃ id ∈ e.idents, ∃ var, r.ident? id = some var ∧
        (var.storage = .local ∨ var.storage = .global) ∧
        session.machine.varValue var = .error fault) ∧
    (∀ fault, ((eval r (.op .ptr [e])).runOn session).1 = .error fault ↔
      ((derefTarget r e).runOn session).1 = .error fault) ∧
    ∀ target, ((derefTarget r e).runOn session).1 = .ok target →
      ∃ value, ((eval r (.op .ptr [e])).runOn session).1 = .ok value ∧
        ((∀ word, session.machine.read target.address target.size ≠ .ok word) → value = 0) := by
  refine ⟨fun fault hfault haccess => ?_, fun fault => eval_deref_eq_error_iff, ?_⟩
  · obtain ⟨id, hid, hvar⟩ := (faultsWithin_eval hfree).expected _ _ fault hfault haccess
    exact ⟨id, Expr.mem_filterMap_ident?_iff.mpr ((Expr.ident_mem_subexprs_iff e).mpr hid), hvar⟩
  · intro target htarget
    have hplace : (derefTarget r e).runOn session = (.ok target, session) :=
      (inspects_reads.derefTarget r e (.inl hfree)).runOn_eq htarget
    rw [eval_deref, runOn_bind_of_ok hplace]
    by_cases hread : ∃ word, session.machine.read target.address target.size = .ok word
    · obtain ⟨word, hread⟩ := hread
      exact ⟨_, by rw [runOn_load hread], fun h => (h word hread).elim⟩
    · have hnone : ∀ word, session.machine.read target.address target.size ≠ .ok word :=
        fun word hword => hread ⟨word, hword⟩
      exact ⟨0, by rw [runOn_load_of_not_read hnone], fun _ => rfl⟩

/-- A dereference of unmapped memory is zero, and the global behind it is a fault. -/
theorem eval_fails_softly_unmapped :
    let r : Draft :=
      { name := "f", address := 0, stmts := #[], body := ⟨0⟩
        idents := #[⟨0, "g", .global, "_WORD", 0x5000⟩] }
    let s : Machine :=
      .new (({} : TypeTable).add "_WORD" 2) ((Memory.new .little 32).mapPages .readWrite [2])
    let session : Session := ⟨[], s, {}⟩
    let e : Expr := .op .add [.op .ptr [.op .sub [.ptr 0, .int 1]], .ident ⟨0⟩]
    e.CallFree ∧ ((eval r e).runOn session).1 = .error (.memoryAccessFault 0x5000 2) ∧
    ∃ id ∈ e.idents, ∃ var, r.ident? id = some var ∧
      (var.storage = .local ∨ var.storage = .global) ∧
      s.varValue var = .error (.memoryAccessFault 0x5000 2) := by
  intro r s session e
  have hfree : e.CallFree := by decide
  have htype : s.types.sizeOf? "_WORD" = some 2 :=
    TypeTable.sizeOf?_add_self {} 2 (by decide) (by decide)
  have hcell : r.ident? ⟨0⟩ = some ⟨0, "g", .global, "_WORD", 0x5000⟩ := rfl
  have hderef : (eval r (.op .ptr [.op .sub [.ptr 0, .int 1]])).runOn session =
      (.ok 0, session) := rfl
  have hvalue : (ask (·.varValue ⟨0, "g", .global, "_WORD", 0x5000⟩)).runOn session =
      (.error (.memoryAccessFault 0x5000 2), session) := by
    rw [runOn_ask, Machine.varValue_of_varAddress rfl htype]
    rfl
  have hglobal : (eval r (.ident ⟨0⟩)).runOn session =
      (.error (.memoryAccessFault 0x5000 2), session) := by
    rw [eval, readIdent, runOn_bind_of_ok (runOn_identOf hcell), runOn_bind_of_error hvalue]
  have hfails : (eval r e).runOn session = (.error (.memoryAccessFault 0x5000 2), session) := by
    show runOn (eval r _ >>= fun left => eval r _ >>= _) _ = _
    rw [runOn_bind_of_ok hderef, runOn_bind_of_error hglobal]
  have hfault := congrArg Prod.fst hfails
  exact ⟨hfree, hfault, (eval_fails_softly r hfree session).1 _ hfault rfl⟩

end Evaluation

end RoutineEmulator
