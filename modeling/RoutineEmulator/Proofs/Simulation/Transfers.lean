import RoutineEmulator.Proofs.Machine.Access
import RoutineEmulator.Proofs.Simulation.Work
import RoutineEmulator.Simulation.Libc
/-!
Copying and filling.

A copy checks both of its ranges before it writes, and takes all bytes before it puts the first
one, so that it does not matter how the ranges lie to each other. `Transfers` says how such a
computation comes out: as a whole where its ranges may be used, and not at all elsewhere. The
copying and filling routines of the library are transfers whose length is given as a signed number.
-/

namespace RoutineEmulator

open Memory

/-- The memory `n` is `m` with the bytes from `src` on copied to `dst`, each as it was before. -/
structure Memory.Copies (m n : Memory) (src dst size : Nat) : Prop where
  bytes : ∀ i < size, ∃ byte, m.byteAt? (src + i) = some byte ∧ n.byteAt? (dst + i) = some byte
  /-- Nothing else is different. -/
  overwrites : Overwrites m n dst (m.bytesFrom src size)

/-! ## Copies and fills of a machine -/

namespace Machine

theorem includes_readOnly : (fun access : Access => access.includes .readOnly) = (·.read) := by
  funext access
  simp [Access.includes, Access.readOnly]

theorem includes_writeOnly : (fun access : Access => access.includes .writeOnly) = (·.write) := by
  funext access
  simp [Access.includes, Access.writeOnly]

section

variable {s : Machine} {src dst : UInt64} {size : Nat}

theorem copy_of_covers (hread : s.memory.Covers (·.read) src size)
    (hwrite : s.memory.Covers (·.write) dst size) :
    s.copy src dst size =
      .ok (s.withMemory (s.memory.setBytes dst.toNat (s.memory.bytesFrom src.toNat size))) := by
  have hbytes := (readBytes_eq_ok_iff s.memory src size _).mpr ⟨hread, rfl⟩
  have hwritten := (writeBytes_eq_ok_iff s.memory _ dst (s.memory.bytesFrom src.toNat size)).mpr
    ⟨by rwa [length_bytesFrom], rfl⟩
  unfold copy checkRange
  rw [includes_readOnly, includes_writeOnly, check_of_covers hread, check_of_covers hwrite]
  simp only [bind, Except.bind, hbytes, hwritten]
  rfl

/-- The range that is read is checked first. -/
theorem copy_of_not_readable (hread : ¬ s.memory.Covers (·.read) src size) :
    s.copy src dst size = .error (.memoryAccessFault src size) := by
  unfold copy checkRange
  rw [includes_readOnly, check_of_not_covers hread]
  rfl

theorem copy_of_not_writable (hread : s.memory.Covers (·.read) src size)
    (hwrite : ¬ s.memory.Covers (·.write) dst size) :
    s.copy src dst size = .error (.memoryAccessFault dst size) := by
  unfold copy checkRange
  rw [includes_readOnly, includes_writeOnly, check_of_covers hread, check_of_not_covers hwrite]
  rfl

theorem copy_zero (s : Machine) (src dst : UInt64) : s.copy src dst 0 = .ok s :=
  copy_of_covers (.inl rfl) (.inl rfl)

theorem fill_of_covers (byte : UInt8) (hwrite : s.memory.Covers (·.write) dst size) :
    s.fill dst byte size =
      .ok (s.withMemory (s.memory.setBytes dst.toNat (List.replicate size byte))) := by
  have hwritten := (writeBytes_eq_ok_iff s.memory _ dst (List.replicate size byte)).mpr
    ⟨by rwa [List.length_replicate], rfl⟩
  unfold fill checkRange
  rw [includes_writeOnly, check_of_covers hwrite]
  simp only [bind, Except.bind, hwritten]
  rfl

theorem fill_of_not_writable (byte : UInt8) (hwrite : ¬ s.memory.Covers (·.write) dst size) :
    s.fill dst byte size = .error (.memoryAccessFault dst size) := by
  unfold fill checkRange
  rw [includes_writeOnly, check_of_not_covers hwrite]
  rfl

end

end Machine

/-- What was copied is there, wherever the two ranges lie. -/
theorem Memory.copies_setBytes {m : Memory} {src dst : UInt64} {size : Nat}
    (hread : m.Covers (·.read) src size) (hwrite : m.Covers (·.write) dst size) :
    m.Copies (m.setBytes dst.toNat (m.bytesFrom src.toNat size)) src.toNat dst.toNat size := by
  have hcovers : m.Covers (·.write) dst (m.bytesFrom src.toNat size).length := by
    rwa [length_bytesFrom]
  refine ⟨fun i hi => ?_, hcovers.overwrites_setBytes⟩
  have hlt : i < (m.bytesFrom src.toNat size).length := by rwa [length_bytesFrom]
  exact ⟨_, hread.byteAt?_eq_getElem hlt, hcovers.overwrites_setBytes.inside i hlt⟩

/-! ## Transfers -/

namespace Work

variable {σ α β : Type}

/-- The computation transfers bytes as a whole or not at all. Where it is allowed it gives the
answer, and the memory is changed as the effect says. Where it is not allowed it has a memory fault,
and the bench stays as it is. -/
def Transfers (work : Work σ α) (bench : Bench σ) (allowed : Prop) (answer : α)
    (effect : Memory → Memory → Prop) : Prop :=
  (allowed ∧ ∃ n, effect bench.machine.memory n ∧
      work.runOn bench = (.ok answer, { bench with machine := bench.machine.withMemory n })) ∨
    (¬ allowed ∧ ∃ address size,
      work.runOn bench = (.error (.memoryAccessFault address size), bench))

theorem transfers_copy (bench : Bench σ) (src dst : UInt64) (size : Nat) :
    Transfers (change (·.copy src dst size)) bench
      (bench.machine.memory.Covers (·.read) src size ∧
        bench.machine.memory.Covers (·.write) dst size) ()
      (Copies · · src.toNat dst.toNat size) := by
  obtain ⟨own, s, log⟩ := bench
  by_cases hread : s.memory.Covers (·.read) src size
  · by_cases hwrite : s.memory.Covers (·.write) dst size
    · exact .inl ⟨⟨hread, hwrite⟩, _, copies_setBytes hread hwrite,
        runOn_change_of_ok (Machine.copy_of_covers hread hwrite)⟩
    · exact .inr ⟨fun h => hwrite h.2, dst, size,
        runOn_change_of_error (Machine.copy_of_not_writable hread hwrite)⟩
  · exact .inr ⟨fun h => hread h.1, src, size,
      runOn_change_of_error (Machine.copy_of_not_readable hread)⟩

theorem transfers_fill (bench : Bench σ) (dst : UInt64) (byte : UInt8) (size : Nat) :
    Transfers (change (·.fill dst byte size)) bench
      (bench.machine.memory.Covers (·.write) dst size) ()
      (Overwrites · · dst.toNat (List.replicate size byte)) := by
  obtain ⟨own, s, log⟩ := bench
  by_cases hwrite : s.memory.Covers (·.write) dst size
  · have hcovers : s.memory.Covers (·.write) dst (List.replicate size byte).length := by
      rwa [List.length_replicate]
    exact .inl ⟨hwrite, _, hcovers.overwrites_setBytes,
      runOn_change_of_ok (Machine.fill_of_covers byte hwrite)⟩
  · exact .inr ⟨hwrite, dst, size, runOn_change_of_error (Machine.fill_of_not_writable byte hwrite)⟩

/-- A transfer is none the less one when its answer is replaced. -/
theorem Transfers.answering {work : Work σ α} {bench : Bench σ} {allowed : Prop} {answer : α}
    {effect : Memory → Memory → Prop} (h : Transfers work bench allowed answer effect) (b : β) :
    Transfers (work >>= fun _ => pure b) bench allowed b effect := by
  rcases h with ⟨hallowed, n, heffect, hrun⟩ | ⟨hdenied, address, size, hrun⟩
  · exact .inl ⟨hallowed, n, heffect, runOn_bind_of_ok hrun⟩
  · exact .inr ⟨hdenied, address, size, runOn_bind_of_error hrun⟩

end Work

/-! ## The library -/

namespace Libc

open Work

theorem byteCount_of_nonneg (dst : Int64) {n : Int64} (h : 0 ≤ n) :
    byteCount dst n = .ok n.toInt.toNat := by
  rw [byteCount, if_pos h]

theorem byteCount_of_neg (dst : Int64) {n : Int64} (h : ¬ 0 ≤ n) :
    byteCount dst n = .error (.memoryAccessFault dst.toUInt64 n.toUInt64.toNat) := by
  rw [byteCount, if_neg h]

/-- A transfer of a length that is given as a signed number answers with its destination. A negative
length is a fault there, before anything is done. -/
theorem transfers_counted {transfer : Nat → Work Libc Unit} {bench : Bench Libc}
    {allowed : Nat → Prop} {effect : Nat → Memory → Memory → Prop}
    (h : ∀ size, Transfers (transfer size) bench (allowed size) () (effect size)) (dst n : Int64) :
    let work : Work Libc Int64 := do
      let size ← ask fun _ => byteCount dst n
      transfer size
      return dst
    Transfers work bench (0 ≤ n ∧ allowed n.toInt.toNat) dst (effect n.toInt.toNat) ∧
      (n < 0 → work.runOn bench =
        (.error (.memoryAccessFault dst.toUInt64 n.toUInt64.toNat), bench)) := by
  intro work
  obtain ⟨own, s, log⟩ := bench
  by_cases hn : 0 ≤ n
  · have hcount : work.runOn ⟨own, s, log⟩ =
        ((transfer n.toInt.toNat >>= fun _ => pure dst).runOn ⟨own, s, log⟩) :=
      runOn_bind_of_ok (runOn_ask_of_ok (byteCount_of_nonneg dst hn))
    have htransfer := (h n.toInt.toNat).answering dst
    refine ⟨?_, fun hneg => absurd hn (Int64.not_le.mpr hneg)⟩
    unfold Transfers at htransfer ⊢
    rwa [hcount, and_iff_right hn]
  · have hfault : work.runOn ⟨own, s, log⟩ =
        (.error (.memoryAccessFault dst.toUInt64 n.toUInt64.toNat), ⟨own, s, log⟩) := by
      refine runOn_bind_of_error ?_
      rw [runOn_ask, byteCount_of_neg dst hn]
    exact ⟨.inr ⟨fun hallowed => hn hallowed.1, _, _, hfault⟩, fun _ => hfault⟩

/-- **Transfers are made as a whole or not at all.** A copy succeeds exactly where the bytes that it
reads may be read and those that it writes may be written, for every two ranges, also where they
overlap; then each byte arrives as it was before the copy, and no other byte is different. Without
bytes nothing is asked and nothing changes. The library copies and fills in the same way for every
length, negative ones fail at the destination, and it answers with the destination. -/
theorem transfers_whole :
    (∀ (s : Machine) (src dst : UInt64), s.copy src dst 0 = .ok s) ∧
    (∀ (σ : Type) (bench : Bench σ) (src dst : UInt64) (size : Nat),
      Transfers (change (·.copy src dst size)) bench
        (bench.machine.memory.Covers (·.read) src size ∧
          bench.machine.memory.Covers (·.write) dst size) ()
        (Copies · · src.toNat dst.toNat size)) ∧
    (∀ (bench : Bench Libc) (dst src n : Int64),
      Transfers (Function.memcpy.run [dst, src, n]) bench
        (0 ≤ n ∧ bench.machine.memory.Covers (·.read) src.toUInt64 n.toInt.toNat ∧
          bench.machine.memory.Covers (·.write) dst.toUInt64 n.toInt.toNat) dst
        (Copies · · src.toUInt64.toNat dst.toUInt64.toNat n.toInt.toNat) ∧
      (n < 0 → (Function.memcpy.run [dst, src, n]).runOn bench =
        (.error (.memoryAccessFault dst.toUInt64 n.toUInt64.toNat), bench))) ∧
    (∀ (bench : Bench Libc) (dst byte n : Int64),
      Transfers (Function.memset.run [dst, byte, n]) bench
        (0 ≤ n ∧ bench.machine.memory.Covers (·.write) dst.toUInt64 n.toInt.toNat) dst
        (Overwrites · · dst.toUInt64.toNat
          (List.replicate n.toInt.toNat byte.toUInt64.toUInt8)) ∧
      (n < 0 → (Function.memset.run [dst, byte, n]).runOn bench =
        (.error (.memoryAccessFault dst.toUInt64 n.toUInt64.toNat), bench))) :=
  ⟨Machine.copy_zero, fun _ => transfers_copy,
    fun bench dst src n =>
      transfers_counted (fun size => transfers_copy bench src.toUInt64 dst.toUInt64 size) dst n,
    fun bench dst byte n =>
      transfers_counted
        (fun size => transfers_fill bench dst.toUInt64 byte.toUInt64.toUInt8 size) dst n⟩

/-- A length of minus one is a fault at the destination, whatever is mapped. -/
theorem transfers_whole_negative :
    let bench : Bench Libc := ⟨{}, .new {} ((Memory.new .little 64).mapPages .readWrite [2]), {}⟩
    (-1 : Int64) < 0 ∧ (Function.memcpy.run [0x2000, 0x2004, -1]).runOn bench =
      (.error (.memoryAccessFault 0x2000 0xffffffffffffffff), bench) :=
  ⟨by decide, (transfers_whole.2.2.1 _ 0x2000 0x2004 (-1)).2 (by decide)⟩

end Libc

end RoutineEmulator
