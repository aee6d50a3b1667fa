import RoutineEmulator.Proofs.Emulation.Inspection
import RoutineEmulator.Proofs.Emulation.Truncation
/-!
Dereferences.

A dereference stands for a place: where it is evaluated and where it is assigned to, the same target
is found first, with an address, a width and a sign. An assignment writes just the bytes of this
place. Evaluating the dereference finds them again, as long as its pointer still leads there.
-/

namespace RoutineEmulator.Evaluation

open Work

section

variable {r : Draft} {operand : Expr} {session after : Session} {target : DerefTarget}

/-! ## The place of a dereference -/

/-- To evaluate a dereference is to find its target and to read there. -/
theorem eval_deref (r : Draft) (operand : Expr) :
    eval r (.op .ptr [operand]) = (do load (← derefTarget r operand)) := by
  by_cases hcast : ∃ type inner rest, operand = .op (.cast type) (inner :: rest)
  · obtain ⟨type, inner, rest, rfl⟩ := hcast
    rw [eval, derefTarget]
  · have hother : ∀ type inner rest, operand = .op (.cast type) (inner :: rest) → False :=
      fun type inner rest h => hcast ⟨type, inner, rest, h⟩
    rw [eval, derefTarget]
    · exact hother
    · exact hother

theorem signed_of_targetOf {width : Run Nat} {pointer : Run Int64} {signed : Bool}
    (h : (targetOf width pointer signed).runOn session = (.ok target, after)) :
    target.signed = signed := by
  obtain ⟨size, _, _, h⟩ := exists_of_runOn_bind_eq_ok h
  obtain ⟨address, _, _, h⟩ := exists_of_runOn_bind_eq_ok h
  cases h
  rfl

/-- The values behind conversions are signed, and no others. -/
theorem signed_of_derefTarget (h : (derefTarget r operand).runOn session = (.ok target, after)) :
    target.signed = operand.isCast := by
  unfold derefTarget at h
  split at h
  · exact signed_of_targetOf h
  · rename_i hother
    rw [signed_of_targetOf h]
    cases operand with
    | int | ptr | ident | predicate | call => rfl
    | op o operands =>
        cases o with
        | cast type =>
            cases operands with
            | cons inner rest => exact (hother type inner rest rfl).elim
            | nil =>
                -- a conversion of nothing has no width
                rw [accessWidth, unimplemented, targetOf, runOn_bind_of_error (runOn_fail _ _)] at h
                cases h
        | _ => rfl

theorem runOn_eval_deref {word : UInt64}
    (htarget : (derefTarget r operand).runOn session = (.ok target, session))
    (hread : session.machine.read target.address target.size = .ok word) :
    (eval r (.op .ptr [operand])).runOn session =
      (.ok (if target.signed then signExtend word target.size else word.toInt64), session) := by
  rw [eval_deref, runOn_bind_of_ok htarget, runOn_load hread]

/-! ## Stores and loads -/

/-- An assignment through a dereference that succeeds has found its target, and has written the
bytes there and nothing else. -/
theorem exists_overwrites_of_assign_deref {p rhs : Expr} (hfree : p.CallFree) {value : Int64}
    {start : Session} (hvalue : (eval r rhs).runOn start = (.ok value, session))
    (hassign : (assign r (.op .ptr [p]) rhs).runOn start = (.ok (), after)) :
    ∃ target n, (derefTarget r p).runOn session = (.ok target, session) ∧
      isWordWidth target.size = true ∧
      after = { session with machine := session.machine.withMemory n } ∧
      session.machine.memory.Overwrites n target.address.toNat
        (session.machine.memory.byteOrder.arrange
          (bytesOfNat target.size value.toUInt64.toNat)) := by
  rw [assign, runOn_bind_of_ok hvalue] at hassign
  obtain ⟨target, between, htarget, hwrite⟩ := exists_of_runOn_bind_eq_ok hassign
  have hkept := (inspects_reads.derefTarget r p (.inl hfree)).keeps session
  rw [htarget] at hkept
  obtain rfl : between = session := hkept
  obtain ⟨own, s, log⟩ := between
  cases hstep : s.write target.address value.toUInt64 target.size with
  | error e =>
      rw [runOn_change_of_error hstep] at hwrite
      cases hwrite
  | ok s' =>
      rw [runOn_change_of_ok hstep] at hwrite
      obtain ⟨hsize, n, rfl, hover⟩ := Machine.exists_overwrites_of_write hstep
      cases hwrite
      exact ⟨target, n, htarget, hsize, rfl, hover⟩

/-- **Stores and loads through one dereference agree.** A value is assigned through a pointer that
is computed without calls. Where that succeeds, the bytes of the value are at the target that the
pointer had before, and nothing else is different. Where the pointer still has this target, and what
is there can be read, the dereference has the low bytes of the value: as the signed number of this
width, if the pointer is a conversion, and else as they are. -/
theorem deref_finds_assigned (r : Draft) {p rhs : Expr} (hfree : p.CallFree) {value : Int64}
    {start session after : Session}
    (hvalue : (eval r rhs).runOn start = (.ok value, session))
    (hassign : (assign r (.op .ptr [p]) rhs).runOn start = (.ok (), after)) :
    ∃ target n, (derefTarget r p).runOn session = (.ok target, session) ∧
      after = { session with machine := session.machine.withMemory n } ∧
      session.machine.memory.Overwrites n target.address.toNat
        (session.machine.memory.byteOrder.arrange
          (bytesOfNat target.size value.toUInt64.toNat)) ∧
      (((derefTarget r p).runOn after).1 = .ok target →
        n.Covers (·.read) target.address target.size →
        ∃ loaded, (eval r (.op .ptr [p])).runOn after = (.ok loaded, after) ∧
          if p.isCast then SignedOf target.size value.toUInt64 loaded.toInt
          else loaded.toUInt64.toNat = value.toUInt64.toNat % 2 ^ (8 * target.size)) := by
  obtain ⟨target, n, htarget, hsize, hafter, hover⟩ :=
    exists_overwrites_of_assign_deref hfree hvalue hassign
  refine ⟨target, n, htarget, hafter, hover, fun hsame hcovers => ?_⟩
  have hplace : (derefTarget r p).runOn after = (.ok target, after) :=
    (inspects_reads.derefTarget r p (.inl hfree)).runOn_eq hsame
  have hword : after.machine.read target.address target.size =
      .ok (lowBytes value.toUInt64 target.size) := by
    rw [hafter]
    exact hover.readWord_of_same hsize ((hover.covers_iff _ _ _).mp hcovers)
  refine ⟨_, runOn_eval_deref hplace hword, ?_⟩
  have hwidth := (isWordWidth_iff target.size).mp hsize
  rw [signed_of_derefTarget htarget]
  split
  · exact (signedOf_iff_signExtend_lowBytes hsize _).mpr rfl
  · rw [UInt64.toUInt64_toInt64, toNat_lowBytes (by omega), Nat.one_shiftLeft]

end

/-- A word that is assigned across the border of two pages, high byte first, through a converted
sum. It is read back with its sign. -/
theorem deref_finds_assigned_word :
    let r : Draft := { name := "f", address := 0, stmts := #[], body := ⟨0⟩ }
    let s : Machine :=
      .new (({} : TypeTable).add "_WORD" 2) ((Memory.new .big 32).mapPages .readWrite [2, 3])
    let p : Expr := .op (.cast "_WORD*") [.op .add [.int 0x2000, .ptr 0xfff]]
    p.CallFree ∧ ∃ after : Session,
      (assign r (.op .ptr [p]) (.int 0x12348001)).runOn ⟨[], s, {}⟩ = (.ok (), after) ∧
      (eval r (.op .ptr [p])).runOn after = (.ok (-0x7fff), after) := by
  intro r s p
  have hfree : p.CallFree := by decide
  have htype : s.types.sizeOf? "_WORD" = some 2 :=
    TypeTable.sizeOf?_add_self {} 2 (by decide) (by decide)
  -- neither the width nor the address is read from memory
  have htarget : ∀ m, (derefTarget r p).runOn ⟨[], s.withMemory m, {}⟩ =
      (.ok ⟨0x2fff, 2, true⟩, ⟨[], s.withMemory m, {}⟩) := by
    intro m
    have hwidth : (s.withMemory m).baseTypeSize "_WORD*" = .ok 2 := Machine.baseTypeSize_star htype
    rw [derefTarget, targetOf, runOn_bind_of_ok (runOn_ask_of_ok hwidth)]
    rfl
  have hcovers : s.memory.Covers (·.read) 0x2fff 2 ∧ s.memory.Covers (·.write) 0x2fff 2 :=
    ⟨(s.memory.accessible_iff _ _ _).mp rfl, (s.memory.accessible_iff _ _ _).mp rfl⟩
  have hsize : isWordWidth 2 = true := rfl
  obtain ⟨m, hstore, hover⟩ := Machine.exists_write 0x12348001 hsize hcovers.2
  have hstart : (derefTarget r p).runOn ⟨[], s, {}⟩ = (.ok ⟨0x2fff, 2, true⟩, ⟨[], s, {}⟩) :=
    htarget s.memory
  have hassign : (assign r (.op .ptr [p]) (.int 0x12348001)).runOn ⟨[], s, {}⟩ =
      (.ok (), ⟨[], s.withMemory m, {}⟩) := by
    rw [assign]
    show runOn (derefTarget r p >>= _) _ = _
    rw [runOn_bind_of_ok hstart]
    exact runOn_change_of_ok hstore
  obtain ⟨target, n, hplace, hafter, -, hload⟩ := deref_finds_assigned r hfree rfl hassign
  obtain rfl : ⟨0x2fff, 2, true⟩ = target :=
    Except.ok.inj (congrArg Prod.fst (hstart.symm.trans hplace))
  obtain rfl : m = n := congrArg (fun session : Session => session.machine.memory) hafter
  have hread := (hover.covers_iff (·.read) 0x2fff 2).mpr hcovers.1
  obtain ⟨loaded, heval, hsigned⟩ := hload (congrArg Prod.fst (htarget m)) hread
  have hvalue : SignedOf 2 0x12348001 (Int64.toInt (-0x7fff)) :=
    ⟨by decide, by decide, by decide⟩
  obtain rfl : loaded = -0x7fff := Int64.toInt_inj.mp (SignedOf.unique (by decide) hsigned hvalue)
  exact ⟨hfree, _, hassign, heval⟩

end RoutineEmulator.Evaluation
