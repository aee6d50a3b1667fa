import RoutineEmulator.Machine.Basic
/-!
The faults that accesses of a machine have.

The step limit belongs to walks: nothing that is asked of a memory or a machine, and nothing that is
done to it, fails for want of visits. Where memory is not touched, nothing fails for its width or
for its pages either.
-/

namespace RoutineEmulator

/-- The result is no fault of a walk that ran out of visits. -/
def SparesLimit {α : Type} (result : Except EmulationError α) : Prop :=
  ∀ limit, result ≠ .error (.stepLimitExceeded limit)

namespace SparesLimit

variable {α β : Type}

@[simp] theorem ok (a : α) : SparesLimit (.ok a : Except EmulationError α) := by
  rintro limit ⟨⟩

/-- A fault spares the limit if it is another one than that of the limit. -/
@[simp] theorem error_iff {e : EmulationError} :
    SparesLimit (.error e : Except EmulationError α) ↔ ∀ limit, e ≠ .stepLimitExceeded limit := by
  simp [SparesLimit]

/-- A fault is the same at every type. -/
theorem retype {e : EmulationError} (h : SparesLimit (.error e : Except EmulationError α)) :
    SparesLimit (.error e : Except EmulationError β) :=
  error_iff.mpr (error_iff.mp h)

/-- A sequence spares the limit where its first part does, and what may follow on any answer. -/
theorem bind {first : Except EmulationError α} {next : α → Except EmulationError β}
    (h : SparesLimit first) (hnext : ∀ a, SparesLimit (next a)) : SparesLimit (first >>= next) := by
  cases first with
  | ok a => exact hnext a
  | error e => exact h.retype

/-- A function of the answer changes no fault. -/
theorem map {first : Except EmulationError α} (h : SparesLimit first) (f : α → β) :
    SparesLimit (f <$> first) := by
  cases first with
  | ok a => exact ok (f a)
  | error e => exact h.retype

end SparesLimit

/-- The fault of an access to memory: its width is none of a word, or its range may not be used. -/
def EmulationError.ofAccess : EmulationError → Bool
  | memoryAccessFault .. | unsupportedWidth _ => true
  | _ => false

/-- The result is no fault of an access, and none of a walk that ran out of visits. -/
structure SparesMemory {α : Type} (result : Except EmulationError α) : Prop where
  sparesLimit : SparesLimit result
  ofAccess : ∀ e, result = .error e → e.ofAccess = false

namespace SparesMemory

variable {α β : Type}

@[simp] theorem ok (a : α) : SparesMemory (.ok a : Except EmulationError α) :=
  ⟨SparesLimit.ok a, fun _ h => by cases h⟩

/-- A fault spares memory if it is neither that of the limit nor one of an access. -/
@[simp] theorem error_iff {e : EmulationError} :
    SparesMemory (.error e : Except EmulationError α) ↔
      (∀ limit, e ≠ .stepLimitExceeded limit) ∧ e.ofAccess = false := by
  constructor
  · intro h
    exact ⟨SparesLimit.error_iff.mp h.sparesLimit, h.ofAccess e rfl⟩
  · rintro ⟨hlimit, haccess⟩
    refine ⟨SparesLimit.error_iff.mpr hlimit, fun e' he' => ?_⟩
    obtain rfl := Except.error.inj he'
    exact haccess

theorem bind {first : Except EmulationError α} {next : α → Except EmulationError β}
    (h : SparesMemory first) (hnext : ∀ a, SparesMemory (next a)) : SparesMemory (first >>= next) := by
  cases first with
  | ok a => exact hnext a
  | error e => exact error_iff.mpr (error_iff.mp h)

end SparesMemory

open SparesLimit

/-! ## Memory -/

namespace Memory

variable (m : Memory)

theorem sparesLimit_checkWidth (size : Nat) : SparesLimit (checkWidth size) := by
  unfold checkWidth
  split <;> simp

/-- A range that may not be used is refused, which has nothing to do with visits. All accesses to
memory start with this check or with that of a width. -/
theorem sparesLimit_check (allowed : Access → Bool) (address : UInt64) (size : Nat) :
    SparesLimit (m.check allowed address size) := by
  unfold check
  split <;> simp

theorem sparesLimit_allocate (address : UInt64) (size : Nat) (access : Access) :
    SparesLimit (m.allocate address size access) := by
  unfold allocate
  split
  · simp
  · split <;> simp

theorem sparesLimit_readBytes (address : UInt64) (size : Nat) :
    SparesLimit (m.readBytes address size) :=
  (m.sparesLimit_check _ address size).bind fun _ => ok _

theorem sparesLimit_writeBytes (address : UInt64) (bytes : List UInt8) :
    SparesLimit (m.writeBytes address bytes) :=
  (m.sparesLimit_check _ address bytes.length).bind fun _ => ok _

theorem sparesLimit_readWord (address : UInt64) (size : Nat) :
    SparesLimit (m.readWord address size) :=
  (sparesLimit_checkWidth size).bind fun _ =>
    (m.sparesLimit_readBytes address size).bind fun _ => ok _

theorem sparesLimit_writeWord (address value : UInt64) (size : Nat) :
    SparesLimit (m.writeWord address value size) :=
  (sparesLimit_checkWidth size).bind fun _ => m.sparesLimit_writeBytes address _

end Memory

/-! ## Machine -/

namespace Machine

variable (s : Machine)

/-- Mapping a range never fails for want of visits. -/
theorem sparesLimit_allocate (address : UInt64) (size : Nat) :
    SparesLimit (s.allocate address size) :=
  (s.memory.sparesLimit_allocate address size _).bind fun _ => ok _

/-- Reading a word never fails for want of visits. -/
theorem sparesLimit_read (address : UInt64) (size : Nat) : SparesLimit (s.read address size) :=
  s.memory.sparesLimit_readWord address size

/-- Writing a word never fails for want of visits. -/
theorem sparesLimit_write (address value : UInt64) (size : Nat) :
    SparesLimit (s.write address value size) :=
  (s.memory.sparesLimit_writeWord address value size).bind fun _ => ok _

/-- A copy may be refused for its source or for its destination, but never for want of visits. -/
theorem sparesLimit_copy (src dst : UInt64) (size : Nat) : SparesLimit (s.copy src dst size) :=
  (s.memory.sparesLimit_check _ src size).bind fun _ =>
    (s.memory.sparesLimit_check _ dst size).bind fun _ =>
      (s.memory.sparesLimit_readBytes src size).bind fun _ =>
        (s.memory.sparesLimit_writeBytes dst _).bind fun _ => ok _

theorem sparesLimit_fill (address : UInt64) (byte : UInt8) (size : Nat) :
    SparesLimit (s.fill address byte size) :=
  (s.memory.sparesLimit_check _ address size).bind fun _ =>
    (s.memory.sparesLimit_writeBytes address _).bind fun _ => ok _

theorem sparesLimit_setRegisterSized (id : RegisterId) (value : UInt64) (size : Nat) :
    SparesLimit (s.setRegisterSized id value size) :=
  (Memory.sparesLimit_checkWidth size).bind fun _ => ok _

theorem sparesMemory_frameBase : SparesMemory s.frameBase := by
  unfold frameBase
  split <;> simp [EmulationError.ofAccess]

/-- The size of a type comes from the table of types, without an access to memory. -/
theorem sparesMemory_typeSize (signature : String) : SparesMemory (s.typeSize signature) := by
  unfold typeSize
  split <;> simp [EmulationError.ofAccess]

/-- So does the size of what a pointer type points to. -/
theorem sparesMemory_baseTypeSize (signature : String) :
    SparesMemory (s.baseTypeSize signature) := by
  unfold baseTypeSize
  split
  · split <;> simp [EmulationError.ofAccess]
  · split <;> simp [EmulationError.ofAccess]

/-- The address of a variable is computed from the frame base or written in the routine, and memory
is not accessed for it. -/
theorem sparesMemory_varAddress (var : Identifier) : SparesMemory (s.varAddress var) := by
  unfold varAddress
  split
  · exact s.sparesMemory_frameBase.bind fun _ => .ok _
  · simp
  · simp [EmulationError.ofAccess]
  · simp [EmulationError.ofAccess]

/-- The value of a variable may lie where memory cannot be read, but asking for it never fails for
want of visits. -/
theorem sparesLimit_varValue (var : Identifier) : SparesLimit (s.varValue var) := by
  have hmemory : SparesLimit (do
      let size ← s.typeSize var.type
      some <$> s.read (← s.varAddress var) size) :=
    (s.sparesMemory_typeSize _).sparesLimit.bind fun size =>
      (s.sparesMemory_varAddress var).sparesLimit.bind fun address =>
        (s.sparesLimit_read address size).map some
  unfold varValue
  split
  · exact hmemory
  · exact hmemory
  · simp
  · simp

/-- Nor does storing to a variable, wherever it is kept. -/
theorem sparesLimit_setVarValue (var : Identifier) (value : UInt64) :
    SparesLimit (s.setVarValue var value) := by
  refine (s.sparesMemory_typeSize _).sparesLimit.bind fun size => ?_
  split
  · exact (s.sparesMemory_varAddress var).sparesLimit.bind fun _ => s.sparesLimit_write _ _ _
  · exact (s.sparesMemory_varAddress var).sparesLimit.bind fun _ => s.sparesLimit_write _ _ _
  · exact s.sparesLimit_setRegisterSized _ _ _
  · exact s.sparesLimit_setRegisterSized _ _ _

end Machine

end RoutineEmulator
