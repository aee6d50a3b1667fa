import RoutineEmulator.Proofs.Emulation.Sizes
import RoutineEmulator.Proofs.Emulation.Truncation
import RoutineEmulator.Proofs.Memory.Halves
/-!
Accesses of the size of a pointer.

A variable whose type is that of a pointer is read and assigned with the size that the type table
has for pointers. A dereference whose type no pointer tells is one of the size that the machine has
for them. Where the two agree on a width that memory has words of, such an access only fails for the
place that it goes to; on any other width it fails wherever it goes.
-/

namespace RoutineEmulator

/-! ## Words -/

theorem ne_zero_of_isWordWidth {size : Nat} (h : isWordWidth size = true) : size ≠ 0 := by
  rw [isWordWidth_iff] at h
  omega

namespace Machine

open Memory

variable {s : Machine} {address : UInt64} {size : Nat}

theorem write_of_not_covers (value : UInt64) (hsize : isWordWidth size = true)
    (h : ¬ s.memory.Covers (·.write) address size) :
    s.write address value size = .error (.memoryAccessFault address size) := by
  have hlen : (s.memory.byteOrder.arrange (bytesOfNat size value.toNat)).length = size := by simp
  have hbytes : ¬ s.memory.Covers (·.write) address
      (s.memory.byteOrder.arrange (bytesOfNat size value.toNat)).length := by rwa [hlen]
  rw [write, writeWord_of_isWordWidth _ _ _ hsize, writeBytes_of_not_covers hbytes, hlen]
  rfl

theorem write_of_not_isWordWidth (s : Machine) (address value : UInt64)
    (h : isWordWidth size = false) :
    s.write address value size = .error (.unsupportedWidth size) := by
  rw [write, writeWord, checkWidth_of_not_isWordWidth h]
  rfl

theorem read_of_not_isWordWidth (s : Machine) (address : UInt64) (h : isWordWidth size = false) :
    s.read address size = .error (.unsupportedWidth size) := by
  rw [read, readWord, checkWidth_of_not_isWordWidth h]
  rfl

end Machine

/-! ## Dereferences of the default width -/

/-- What is evaluated for the address of a dereference: the operand, without a conversion around
it. -/
def Expr.derefPointer : Expr → Expr
  | op (.cast _) (inner :: _) => inner
  | e => e

/-- The routine has the variable, and its type is not that of a pointer. -/
def Draft.IsPlain (r : Draft) (id : IdentId) : Prop :=
  ∃ var, r.ident? id = some var ∧ baseSignature? var.type = none

/-- Neither a conversion nor a variable in the operand tells the width of its dereference. -/
def Draft.DefaultsWidth (r : Draft) : Expr → Prop
  | .op (.cast _) [] => False
  | .op (.cast type) (_ :: _) => baseSignature? type = none
  | .op o operands => ∀ id, (Expr.op o operands).basePointer? = some id → r.IsPlain id
  | .ident id => r.IsPlain id
  | .int _ | .ptr _ => True
  | .predicate _ | .call .. => False

namespace Evaluation

open Work

/-- The width is the size that the machine has for a pointer. It is missing where this is zero. -/
structure TakesPointerSize (width : Run Nat) : Prop where
  runs : ∀ session : Session, session.machine.pointerSize ≠ 0 →
    width.runOn session = (.ok session.machine.pointerSize, session)
  fails : ∀ session : Session, session.machine.pointerSize = 0 →
    ∃ text, width.runOn session = (.error (.notAPointerType text), session)

variable {r : Draft} {operand : Expr}

theorem takesPointerSize_defaultWidth (r : Draft) (operand : Expr) :
    TakesPointerSize (defaultWidth r operand) := by
  constructor
  · intro session hsize
    unfold defaultWidth
    rw [runOn_bind_of_ok runOn_machine]
    dsimp only
    rw [if_neg hsize]
    rfl
  · intro session hsize
    refine ⟨r.renderExpr operand, ?_⟩
    unfold defaultWidth
    rw [runOn_bind_of_ok runOn_machine]
    dsimp only
    rw [if_pos hsize]
    rfl

/-- A type that is not that of a pointer leaves the width open. -/
theorem takesPointerSize_baseTypeSize {type : String} (h : baseSignature? type = none) :
    TakesPointerSize (Work.ask (·.baseTypeSize type)) := by
  constructor
  · rintro ⟨own, s, log⟩ hsize
    apply runOn_ask_of_ok
    rw [Machine.baseTypeSize, h]
    exact if_pos (Nat.pos_of_ne_zero hsize)
  · rintro ⟨own, s, log⟩ hsize
    refine ⟨type, ?_⟩
    rw [runOn_ask, Machine.baseTypeSize, h]
    dsimp only
    rw [if_neg (Nat.not_lt.mpr (Nat.le_of_eq hsize))]

theorem takesPointerSize_ident {id : IdentId} (h : r.IsPlain id) :
    TakesPointerSize (do let ident ← identOf r id; Work.ask (·.baseTypeSize ident.type)) := by
  obtain ⟨var, hvar, htype⟩ := h
  unfold identOf
  rw [hvar]
  exact takesPointerSize_baseTypeSize htype

/-- The first variable in pointer arithmetic leaves the width open, too. -/
theorem takesPointerSize_basePointer
    (h : ∀ id, operand.basePointer? = some id → r.IsPlain id) :
    TakesPointerSize (match operand.basePointer? with
      | some id => do
        let ident ← identOf r id
        Work.ask (·.baseTypeSize ident.type)
      | none => defaultWidth r operand) := by
  cases hbase : operand.basePointer? with
  | some id => exact takesPointerSize_ident (h id hbase)
  | none => exact takesPointerSize_defaultWidth r operand

/-- Where the width is the default one, a dereference takes the size of a pointer. -/
theorem exists_derefTarget_eq (h : r.DefaultsWidth operand) :
    ∃ width signed, TakesPointerSize width ∧
      derefTarget r operand = targetOf width (eval r operand.derefPointer) signed := by
  cases operand with
  | int | ptr => exact ⟨_, false, takesPointerSize_defaultWidth r _, rfl⟩
  | ident id => exact ⟨_, false, takesPointerSize_ident h, rfl⟩
  | predicate | call => exact h.elim
  | op o operands =>
      cases o with
      | cast type =>
          cases operands with
          | nil => exact h.elim
          | cons inner rest => exact ⟨_, true, takesPointerSize_baseTypeSize h, rfl⟩
      | _ => exact ⟨_, false, takesPointerSize_basePointer h, rfl⟩

/-- A store of the default width whose value and address can be evaluated, the value first. -/
structure DefaultStore (r : Draft) (lhs rhs : Expr) (start between after : Session)
    (value address : Int64) : Prop where
  place : ∃ operand, lhs.derefOperand? = some operand ∧ r.DefaultsWidth operand ∧
    (eval r operand.derefPointer).runOn between = (.ok address, after)
  value : (eval r rhs).runOn start = (.ok value, between)

namespace DefaultStore

variable {lhs rhs : Expr} {start between after : Session} {value address : Int64}

/-- The size of a pointer is not changed by the evaluation of the value. -/
theorem pointerSize_eq (h : DefaultStore r lhs rhs start between after value address) :
    between.machine.pointerSize = start.machine.pointerSize := by
  have hkept := (Emulator.KeepsSizes.callCourse.eval r rhs start).pointerSize
  rwa [h.value] at hkept

/-- The store writes as many bytes as a pointer has. -/
theorem runOn_assign (h : DefaultStore r lhs rhs start between after value address)
    (hsize : start.machine.pointerSize ≠ 0) :
    (assign r lhs rhs).runOn start =
      (Work.change (·.write address.toUInt64 value.toUInt64 start.machine.pointerSize)).runOn
        after := by
  obtain ⟨operand, hlhs, hwidth, hpointer⟩ := h.place
  obtain ⟨width, signed, htakes, htarget⟩ := exists_derefTarget_eq hwidth
  have hrun : (derefTarget r operand).runOn between =
      (.ok ⟨address.toUInt64, start.machine.pointerSize, signed⟩, after) := by
    rw [← h.pointerSize_eq] at hsize ⊢
    rw [htarget, targetOf, runOn_bind_of_ok (htakes.runs between hsize),
      runOn_bind_of_ok hpointer]
    rfl
  rw [assign, runOn_bind_of_ok h.value, hlhs]
  dsimp only
  rw [runOn_bind_of_ok hrun]

/-- Where a pointer has no size, the store fails before its address is evaluated. -/
theorem exists_runOn_assign (h : DefaultStore r lhs rhs start between after value address)
    (hsize : start.machine.pointerSize = 0) :
    ∃ text, (assign r lhs rhs).runOn start = (.error (.notAPointerType text), between) := by
  obtain ⟨operand, hlhs, hwidth, -⟩ := h.place
  obtain ⟨width, signed, htakes, htarget⟩ := exists_derefTarget_eq hwidth
  rw [← h.pointerSize_eq] at hsize
  obtain ⟨text, hfails⟩ := htakes.fails between hsize
  refine ⟨text, ?_⟩
  rw [assign, runOn_bind_of_ok h.value, hlhs]
  dsimp only
  apply runOn_bind_of_error
  rw [htarget, targetOf]
  exact runOn_bind_of_error hfails

end DefaultStore

end Evaluation

/-! ## Machines -/

namespace Machine

open Memory Evaluation

/-- A variable that lies at an address of the memory and has the type of a pointer. -/
structure PointerAt (s : Machine) (var : Identifier) (address : UInt64) : Prop where
  type : (baseSignature? var.type).isSome = true
  place : s.varAddress var = .ok address

/-- Pointers have a width that the memory accepts. Pointer variables are read and assigned where
their bytes may be, and a store of the default width only fails for bytes that may not be written.
-/
structure PointersUsable (s : Machine) : Prop where
  read : ∀ {var address}, s.PointerAt var address →
    s.memory.Covers (·.read) address s.pointerSize →
    s.varValue var = .ok (some (s.memory.wordAt address s.pointerSize))
  assign : ∀ {var address} value, s.PointerAt var address →
    s.memory.Covers (·.write) address s.pointerSize →
    ∃ m, s.setVarValue var value = .ok (s.withMemory m) ∧
      s.memory.Overwrites m address.toNat
        (s.memory.byteOrder.arrange (bytesOfNat s.pointerSize value.toNat))
  store : ∀ {r lhs rhs start between after value address}, start.machine = s →
    DefaultStore r lhs rhs start between after value address →
    after.machine.memory.Covers (·.write) address.toUInt64 s.pointerSize →
    ∃ m, (Evaluation.assign r lhs rhs).runOn start =
        (.ok (), { after with machine := after.machine.withMemory m }) ∧
      after.machine.memory.Overwrites m address.toUInt64.toNat
        (after.machine.memory.byteOrder.arrange (bytesOfNat s.pointerSize value.toUInt64.toNat))
  fault : ∀ {r lhs rhs start between after value address}, start.machine = s →
    DefaultStore r lhs rhs start between after value address →
    ¬ after.machine.memory.Covers (·.write) address.toUInt64 s.pointerSize →
    (Evaluation.assign r lhs rhs).runOn start =
      (.error (.memoryAccessFault address.toUInt64 s.pointerSize), after)

/-- Pointers have a width that the memory refuses. No pointer variable in memory can be read or
assigned, and no store of the default width succeeds, wherever it goes. -/
structure PointersRefused (s : Machine) : Prop where
  read : ∀ {var address}, s.PointerAt var address →
    s.varValue var = .error (.unsupportedWidth s.pointerSize)
  assign : ∀ {var address} value, s.PointerAt var address →
    s.setVarValue var value = .error (.unsupportedWidth s.pointerSize)
  store : ∀ {r lhs rhs start between after value address}, start.machine = s →
    DefaultStore r lhs rhs start between after value address → s.pointerSize ≠ 0 →
    (Evaluation.assign r lhs rhs).runOn start =
      (.error (.unsupportedWidth s.pointerSize), after)
  sizeless : ∀ {r lhs rhs start between after value address}, start.machine = s →
    DefaultStore r lhs rhs start between after value address → s.pointerSize = 0 →
    ∃ text, (Evaluation.assign r lhs rhs).runOn start =
      (.error (.notAPointerType text), between)

section

variable {s : Machine} {var : Identifier} {address : UInt64}

theorem PointerAt.sizeOf? (h : s.PointerAt var address)
    (hsame : s.types.pointerSize = s.pointerSize) :
    s.types.sizeOf? var.type = some s.pointerSize := by
  rw [s.types.sizeOf?_of_pointer h.type, hsame]

theorem pointersUsable (hsame : s.types.pointerSize = s.pointerSize)
    (hwidth : isWordWidth s.pointerSize = true) : s.PointersUsable where
  read hvar hcovers := by
    rw [varValue_of_varAddress hvar.place (hvar.sizeOf? hsame), Machine.read,
      readWord_of_covers hwidth hcovers]
    rfl
  assign value hvar hcovers := by
    rw [setVarValue_of_varAddress hvar.place (hvar.sizeOf? hsame)]
    exact exists_write value hwidth hcovers
  store := by
    rintro r lhs rhs start between ⟨own, s', log⟩ value address rfl hstore hcovers
    obtain ⟨m, hwrite, hover⟩ := exists_write value.toUInt64 hwidth hcovers
    refine ⟨m, ?_, hover⟩
    rw [hstore.runOn_assign (ne_zero_of_isWordWidth hwidth)]
    exact Work.runOn_change_of_ok hwrite
  fault := by
    rintro r lhs rhs start between ⟨own, s', log⟩ value address rfl hstore hcovers
    rw [hstore.runOn_assign (ne_zero_of_isWordWidth hwidth)]
    exact Work.runOn_change_of_error (write_of_not_covers value.toUInt64 hwidth hcovers)

theorem pointersRefused (hsame : s.types.pointerSize = s.pointerSize)
    (hwidth : isWordWidth s.pointerSize = false) : s.PointersRefused where
  read hvar := by
    rw [varValue_of_varAddress hvar.place (hvar.sizeOf? hsame), read_of_not_isWordWidth s _ hwidth]
    rfl
  assign value hvar := by
    rw [setVarValue_of_varAddress hvar.place (hvar.sizeOf? hsame)]
    exact write_of_not_isWordWidth s _ value hwidth
  store := by
    rintro r lhs rhs start between ⟨own, s', log⟩ value address rfl hstore hsize
    rw [hstore.runOn_assign hsize]
    exact Work.runOn_change_of_error (write_of_not_isWordWidth s' _ _ hwidth)
  sizeless := by
    rintro r lhs rhs start between after value address rfl hstore hsize
    exact hstore.exists_runOn_assign hsize

end

end Machine

end RoutineEmulator
