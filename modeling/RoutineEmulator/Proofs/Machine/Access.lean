import RoutineEmulator.Machine.Basic
import RoutineEmulator.Proofs.Memory.Mapping
/-!
Memory accesses of a machine.

An access replaces the memory of the machine and nothing else. The laws name the new memory and say
how it differs from the old one.
-/

namespace RoutineEmulator.Machine

open Memory

/-- The machine with another memory. -/
def withMemory (s : Machine) (m : Memory) : Machine :=
  { s with memory := m }

@[simp] theorem memory_withMemory (s : Machine) (m : Memory) : (s.withMemory m).memory = m := rfl

@[simp] theorem withMemory_withMemory (s : Machine) (m n : Memory) :
    (s.withMemory m).withMemory n = s.withMemory n := rfl

/-- A word is written where its bytes may be. -/
theorem exists_write {s : Machine} {address : UInt64} (value : UInt64) {size : Nat}
    (hsize : isWordWidth size = true) (h : s.memory.Covers (·.write) address size) :
    ∃ n, s.write address value size = .ok (s.withMemory n) ∧
      Overwrites s.memory n address.toNat
        (s.memory.byteOrder.arrange (bytesOfNat size value.toNat)) := by
  obtain ⟨n, hwrite, hover⟩ := exists_writeWord_of_covers value hsize h
  refine ⟨n, ?_, hover⟩
  rw [write, hwrite]
  rfl

/-- A word that is written has the width of a word, and nothing but its bytes in memory is
different. -/
theorem exists_overwrites_of_write {s s' : Machine} {address value : UInt64} {size : Nat}
    (h : s.write address value size = .ok s') :
    isWordWidth size = true ∧ ∃ n, s' = s.withMemory n ∧
      Overwrites s.memory n address.toNat
        (s.memory.byteOrder.arrange (bytesOfNat size value.toNat)) := by
  unfold write at h
  cases hwrite : s.memory.writeWord address value size with
  | error e =>
      rw [hwrite] at h
      cases h
  | ok n =>
      rw [hwrite] at h
      exact ⟨isWordWidth_of_writeWord hwrite, n, (Except.ok.inj h).symm,
        overwrites_of_writeWord hwrite⟩

/-- A range in the address space can be allocated. -/
theorem exists_allocate (s : Machine) (address : UInt64) (size : Nat) (hsize : 0 < size)
    (hspace : address.toNat + size ≤ s.memory.spaceSize) :
    ∃ n, s.allocate address size = .ok (s.withMemory n) ∧
      FillsGaps s.memory n .readWrite address.toNat size := by
  obtain ⟨n, added, hallocate, hfill⟩ := Memory.exists_allocate .readWrite hsize hspace
  refine ⟨n, ?_, hfill⟩
  rw [allocate, hallocate]
  rfl

end RoutineEmulator.Machine
