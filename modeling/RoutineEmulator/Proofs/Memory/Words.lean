import RoutineEmulator.Proofs.Memory.Flat
/-!
Words in memory.

A word is the number that its bytes spell in the byte order of the memory. The laws here say when a
word is read or written, that a word reads back as its low bytes, and that it is not touched by a
write to other bytes.
-/

namespace RoutineEmulator

/-! ## Numbers and their bytes -/

@[simp] theorem length_bytesOfNat (size n : Nat) : (bytesOfNat size n).length = size := by
  induction size generalizing n with
  | zero => rfl
  | succ size ih => rw [bytesOfNat, List.length_cons, ih]

/-- The lowest bytes of a number spell its remainder. -/
theorem natOfBytes_bytesOfNat (size n : Nat) :
    natOfBytes (bytesOfNat size n) = n % 1 <<< (8 * size) := by
  induction size generalizing n with
  | zero => rw [bytesOfNat, natOfBytes, Nat.mul_zero, Nat.shiftLeft_zero, Nat.mod_one]
  | succ size ih =>
      have hbyte : (UInt8.ofNat n).toNat = n % 256 := UInt8.toNat_ofNat'
      have hbits : 1 <<< (8 * (size + 1)) = 256 * 1 <<< (8 * size) := by
        rw [Nat.one_shiftLeft, Nat.one_shiftLeft, Nat.mul_succ, Nat.pow_add, Nat.mul_comm]
      rw [bytesOfNat, natOfBytes, ih, hbyte, hbits, Nat.mod_mul]

@[simp] theorem ByteOrder.length_arrange (order : ByteOrder) (bytes : List UInt8) :
    (order.arrange bytes).length = bytes.length := by
  cases order
  · rfl
  · exact List.length_reverse

/-- Arranging twice gives the bytes back. -/
@[simp] theorem ByteOrder.arrange_arrange (order : ByteOrder) (bytes : List UInt8) :
    order.arrange (order.arrange bytes) = bytes := by
  cases order
  · rfl
  · exact List.reverse_reverse bytes

/-! ## Low bytes of a word -/

theorem toNat_lowBytes {value : UInt64} {size : Nat} (hsize : size ≤ 8) :
    (lowBytes value size).toNat = value.toNat % 1 <<< (8 * size) := by
  rw [lowBytes, UInt64.toNat_ofNat', Nat.one_shiftLeft]
  apply Nat.mod_eq_of_lt
  calc value.toNat % 2 ^ (8 * size) < 2 ^ (8 * size) := Nat.mod_lt _ (Nat.two_pow_pos _)
    _ ≤ 2 ^ 64 := Nat.pow_le_pow_right (by decide) (by omega)

/-- Eight bytes are the whole word. -/
theorem lowBytes_eight (value : UInt64) : lowBytes value 8 = value := by
  apply UInt64.toNat_inj.mp
  rw [toNat_lowBytes (Nat.le_refl 8)]
  exact Nat.mod_eq_of_lt value.toNat_lt

/-- Four bytes are the word taken to 32 bits. -/
theorem lowBytes_four (value : UInt64) : lowBytes value 4 = value.toUInt32.toUInt64 := by
  apply UInt64.toNat_inj.mp
  calc (lowBytes value 4).toNat = value.toNat % 1 <<< (8 * 4) := toNat_lowBytes (by decide)
    _ = value.toUInt32.toUInt64.toNat := by rw [UInt32.toNat_toUInt64]; rfl

theorem isWordWidth_four : isWordWidth 4 = true := rfl

theorem isWordWidth_eight : isWordWidth 8 = true := rfl

namespace Memory

/-! ## Reading and writing words -/

theorem checkWidth_of_isWordWidth {size : Nat} (h : isWordWidth size = true) :
    checkWidth size = .ok () := by
  rw [checkWidth, if_pos h]

/-- The word at an address, as its bytes spell it. -/
def wordAt (m : Memory) (address : UInt64) (size : Nat) : UInt64 :=
  UInt64.ofNat (natOfBytes (m.byteOrder.arrange (m.bytesFrom address.toNat size)))

/-- A word is read where its bytes may be. -/
theorem readWord_of_covers {m : Memory} {address : UInt64} {size : Nat}
    (hsize : isWordWidth size = true) (h : m.Covers (·.read) address size) :
    m.readWord address size = .ok (m.wordAt address size) := by
  have hbytes := (readBytes_eq_ok_iff m address size _).mpr ⟨h, rfl⟩
  rw [readWord, checkWidth_of_isWordWidth hsize, hbytes]
  rfl

theorem readWord_of_not_covers {m : Memory} {address : UInt64} {size : Nat}
    (hsize : isWordWidth size = true) (h : ¬ m.Covers (·.read) address size) :
    m.readWord address size = .error (.memoryAccessFault address size) := by
  rw [readWord, checkWidth_of_isWordWidth hsize, readBytes_of_not_covers h]
  rfl

theorem covers_of_readWord {m : Memory} {address value : UInt64} {size : Nat}
    (hsize : isWordWidth size = true) (h : m.readWord address size = .ok value) :
    m.Covers (·.read) address size := by
  by_cases hcovers : m.Covers (·.read) address size
  · exact hcovers
  · rw [readWord_of_not_covers hsize hcovers] at h
    cases h

/-- The fault of a word that cannot be read tells the place and the width. -/
theorem eq_of_readWord_eq_error {m : Memory} {address : UInt64} {size : Nat} {e : EmulationError}
    (hsize : isWordWidth size = true) (h : m.readWord address size = .error e) :
    e = .memoryAccessFault address size := by
  by_cases hcovers : m.Covers (·.read) address size
  · rw [readWord_of_covers hsize hcovers] at h
    cases h
  · rw [readWord_of_not_covers hsize hcovers] at h
    exact (Except.error.inj h).symm

/-- A word is written where its bytes may be, and they replace those that were there. -/
theorem exists_writeWord_of_covers {m : Memory} {address : UInt64} (value : UInt64) {size : Nat}
    (hsize : isWordWidth size = true) (h : m.Covers (·.write) address size) :
    ∃ n, m.writeWord address value size = .ok n ∧
      Overwrites m n address.toNat (m.byteOrder.arrange (bytesOfNat size value.toNat)) := by
  have hlen : (m.byteOrder.arrange (bytesOfNat size value.toNat)).length = size := by simp
  have hcovers : m.Covers (·.write) address
      (m.byteOrder.arrange (bytesOfNat size value.toNat)).length := by rwa [hlen]
  refine ⟨_, ?_, hcovers.overwrites_setBytes⟩
  rw [writeWord, checkWidth_of_isWordWidth hsize]
  exact (writeBytes_eq_ok_iff m _ address _).mpr ⟨hcovers, rfl⟩

theorem isWordWidth_of_writeWord {m n : Memory} {address value : UInt64} {size : Nat}
    (h : m.writeWord address value size = .ok n) : isWordWidth size = true := by
  unfold writeWord checkWidth at h
  split at h
  · rename_i hsize
    exact hsize
  · cases h

theorem overwrites_of_writeWord {m n : Memory} {address value : UInt64} {size : Nat}
    (h : m.writeWord address value size = .ok n) :
    Overwrites m n address.toNat (m.byteOrder.arrange (bytesOfNat size value.toNat)) := by
  unfold writeWord checkWidth at h
  split at h
  · exact overwrites_of_writeBytes h
  · cases h

/-! ## What a word depends on -/

/-- A word is read from its bytes and their flags alone. -/
theorem readWord_congr {m n : Memory} {address value : UInt64} {size : Nat}
    (hsize : isWordWidth size = true) (horder : n.byteOrder = m.byteOrder)
    (hbits : n.spaceBits = m.spaceBits)
    (hflags : ∀ x, address.toNat ≤ x → x < address.toNat + size → n.accessAt? x = m.accessAt? x)
    (hbytes : ∀ x, address.toNat ≤ x → x < address.toNat + size → n.byteAt? x = m.byteAt? x)
    (h : m.readWord address size = .ok value) : n.readWord address size = .ok value := by
  have hcovers := covers_of_readWord hsize h
  have hsame : n.bytesFrom address.toNat size = m.bytesFrom address.toNat size := by
    unfold bytesFrom
    apply List.map_congr_left
    intro x hx
    rw [List.mem_range'_1] at hx
    rw [hbytes x hx.1 hx.2]
  rw [readWord_of_covers hsize hcovers] at h
  rw [readWord_of_covers hsize (hcovers.congr hbits hflags), wordAt, hsame, horder]
  exact h

/-- A word is not touched by a write to other bytes. -/
theorem Overwrites.readWord_of_disjoint {m n : Memory} {a : Nat} {bytes : List UInt8}
    (h : Overwrites m n a bytes) {address value : UInt64} {size : Nat}
    (hsize : isWordWidth size = true)
    (hdisjoint : address.toNat + size ≤ a ∨ a + bytes.length ≤ address.toNat)
    (hread : m.readWord address size = .ok value) : n.readWord address size = .ok value := by
  refine readWord_congr hsize h.byteOrder h.spaceBits (fun x _ _ => h.access x) ?_ hread
  intro x hle hlt
  exact h.outside x (by omega)

/-- A word reads back as the low bytes of what was written. -/
theorem Overwrites.readWord_of_same {m n : Memory} {address value : UInt64} {size : Nat}
    (hsize : isWordWidth size = true)
    (h : Overwrites m n address.toNat (m.byteOrder.arrange (bytesOfNat size value.toNat)))
    (hcovers : m.Covers (·.read) address size) :
    n.readWord address size = .ok (lowBytes value size) := by
  have hlen : (m.byteOrder.arrange (bytesOfNat size value.toNat)).length = size := by simp
  have hbytes : n.bytesFrom address.toNat size =
      m.byteOrder.arrange (bytesOfNat size value.toNat) := by
    apply List.ext_getElem
    · rw [length_bytesFrom, hlen]
    · intro i hi hi'
      rw [getElem_bytesFrom, h.inside i hi']
      rfl
  rw [readWord_of_covers hsize ((h.covers_iff _ address size).mpr hcovers), wordAt, hbytes,
    h.byteOrder, ByteOrder.arrange_arrange, natOfBytes_bytesOfNat]
  rfl

end Memory

end RoutineEmulator
