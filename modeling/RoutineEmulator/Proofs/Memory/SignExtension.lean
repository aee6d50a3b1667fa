import Mathlib.Algebra.Group.Int.Defs
import RoutineEmulator.Proofs.Memory.Halves
/-!
Sign extension.

The signed numbers of one width are as many as its remainders, so each word has just one that agrees
with its low bytes. Extending a word by its sign gives that number, from the word itself as well as
from its low bytes.
-/

namespace RoutineEmulator

/-- A signed number of this width that has the low bytes of a word. -/
structure SignedOf (size : Nat) (value : UInt64) (n : Int) : Prop where
  min_le : -2 ^ (8 * size - 1) ≤ n
  lt : n < 2 ^ (8 * size - 1)
  emod_eq : n % 2 ^ (8 * size) = value.toNat % 2 ^ (8 * size)

section

variable {size : Nat} {value : UInt64}

/-- The balanced remainder of a remainder is that of the number. -/
theorem bmod_mod (n m : Nat) : Int.bmod (n % m : Nat) m = Int.bmod n m := by
  rw [Int.natCast_emod, Int.emod_bmod]

theorem two_pow_bytes_eq_double (hsize : 0 < size) :
    (2 : Int) ^ (8 * size) = 2 * 2 ^ (8 * size - 1) := by
  rw [← Int.pow_succ', Nat.sub_add_cancel (by omega)]

/-- There is one such number, the balanced remainder of the word. -/
theorem signedOf_iff (hsize : 0 < size) (n : Int) :
    SignedOf size value n ↔ n = Int.bmod value.toNat (2 ^ (8 * size)) := by
  have hdouble := two_pow_bytes_eq_double hsize
  have hcast : ((2 ^ (8 * size) : Nat) : Int) = 2 ^ (8 * size) := Int.natCast_pow 2 _
  constructor
  · rintro ⟨hmin, hlt, hmod⟩
    rw [← hcast] at hmod
    calc n = Int.bmod n (2 ^ (8 * size)) := by
          rw [Int.bmod_eq_of_le] <;> rw [hcast] <;> omega
      _ = Int.bmod value.toNat (2 ^ (8 * size)) := by rw [← Int.emod_bmod, hmod, Int.emod_bmod]
  · rintro rfl
    refine ⟨?_, ?_, ?_⟩
    · have := Int.le_bmod (x := value.toNat) (m := 2 ^ (8 * size)) (Nat.two_pow_pos _)
      omega
    · have := Int.bmod_lt (x := value.toNat) (m := 2 ^ (8 * size)) (Nat.two_pow_pos _)
      omega
    · rw [← hcast, Int.bmod_emod]

theorem SignedOf.unique (hsize : 0 < size) {n n' : Int} (h : SignedOf size value n)
    (h' : SignedOf size value n') : n = n' :=
  ((signedOf_iff hsize n).mp h).trans ((signedOf_iff hsize n').mp h').symm

theorem toInt_signExtend (hsize : isWordWidth size = true) :
    (signExtend value size).toInt = Int.bmod value.toNat (2 ^ (8 * size)) := by
  obtain rfl | rfl | rfl | rfl := (isWordWidth_iff size).mp hsize
  · rw [signExtend, Int8.toInt_toInt64]
    show value.toUInt8.toBitVec.toInt = _
    rw [BitVec.toInt_eq_toNat_bmod, UInt8.toNat_toBitVec, UInt64.toNat_toUInt8]
    exact bmod_mod value.toNat _
  · rw [signExtend, Int16.toInt_toInt64]
    show value.toUInt16.toBitVec.toInt = _
    rw [BitVec.toInt_eq_toNat_bmod, UInt16.toNat_toBitVec, UInt64.toNat_toUInt16]
    exact bmod_mod value.toNat _
  · rw [signExtend, Int32.toInt_toInt64]
    show value.toUInt32.toBitVec.toInt = _
    rw [BitVec.toInt_eq_toNat_bmod, UInt32.toNat_toBitVec, UInt64.toNat_toUInt32]
    exact bmod_mod value.toNat _
  · show value.toBitVec.toInt = _
    rw [BitVec.toInt_eq_toNat_bmod, UInt64.toNat_toBitVec]

/-- **Sign extension of low bytes.** It gives the one signed number that has them. -/
theorem signedOf_iff_signExtend_lowBytes (hsize : isWordWidth size = true) (n : Int) :
    SignedOf size value n ↔ n = (signExtend (lowBytes value size) size).toInt := by
  have hwidth := (isWordWidth_iff size).mp hsize
  rw [signedOf_iff (by omega), toInt_signExtend hsize, toNat_lowBytes (by omega), Nat.one_shiftLeft,
    bmod_mod]

end

end RoutineEmulator
