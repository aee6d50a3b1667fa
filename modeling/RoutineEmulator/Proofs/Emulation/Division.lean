import Mathlib.Algebra.Order.Ring.Int
import RoutineEmulator.Proofs.Emulation.ExactValues
/-!
Division of words, and shifts as multiplication and division by powers of two.

Quotients and remainders of words are those of the integers that the words stand for, toward zero,
but for the one quotient that no word is. A shift by the low six bits of its count multiplies by a
power of two, or divides by it toward the lower side: the signed value or the unsigned one, by the
kind of the shift.
-/

namespace RoutineEmulator

/-! ## Quotients and remainders -/

/-- Quotient and remainder of two words. -/
structure Divided (a b quotient rest : Int64) : Prop where
  /-- The two recombine to the dividend, also where the quotient overflows. -/
  recombines : quotient.toInt * b.toInt + rest.toInt ≡ a.toInt [ZMOD 2 ^ 64]
  /-- One quotient is no word: it wraps round to the dividend. -/
  overflows : a.toInt = -2 ^ 63 → b.toInt = -1 → quotient.toInt = -2 ^ 63 ∧ rest.toInt = 0
  /-- Every other one is exact, without its fraction. -/
  exact : ¬ (a.toInt = -2 ^ 63 ∧ b.toInt = -1) → quotient.toInt = a.toInt.tdiv b.toInt
  below : |rest.toInt| < |b.toInt|
  sided : rest.toInt = 0 ∨ rest.toInt.sign = a.toInt.sign

namespace Word

variable {a b : Int64}

theorem toInt_ne_zero (hb : b ≠ 0) : b.toInt ≠ 0 := by
  intro h
  exact hb (Int64.toInt_inj.mp h)

/-- The quotient of words is the wrapped exact one. -/
theorem toInt_div_modEq (a b : Int64) : (a / b).toInt ≡ a.toInt.tdiv b.toInt [ZMOD 2 ^ 64] := by
  rw [Int64.toInt_div]
  exact Int.bmod_emod

theorem toInt_div_of_fits (h : ¬ (a.toInt = -2 ^ 63 ∧ b.toInt = -1)) :
    (a / b).toInt = a.toInt.tdiv b.toInt := by
  by_cases ha : a = Int64.minValue
  · apply Int64.toInt_div_of_ne_right
    rintro rfl
    apply h
    subst ha
    exact ⟨Int64.toInt_minValue, rfl⟩
  · exact Int64.toInt_div_of_ne_left a b ha

/-- **Division of words.** By anything but zero the two operations give quotient and remainder. -/
theorem divided (a : Int64) (hb : b ≠ 0) : Divided a b (a / b) (a % b) where
  recombines := by
    rw [Int64.toInt_mod]
    calc (a / b).toInt * b.toInt + a.toInt.tmod b.toInt
        ≡ a.toInt.tdiv b.toInt * b.toInt + a.toInt.tmod b.toInt [ZMOD 2 ^ 64] :=
          ((toInt_div_modEq a b).mul_right _).add_right _
      _ = a.toInt := Int.tdiv_mul_add_tmod _ _
  overflows ha hb := by
    obtain rfl : a = Int64.minValue := Int64.toInt_inj.mp (ha.trans Int64.toInt_minValue.symm)
    obtain rfl : b = -1 := Int64.toInt_inj.mp hb
    decide
  exact := toInt_div_of_fits
  below := by
    have hpos : 0 < b.toInt.natAbs := Int.natAbs_pos.mpr (toInt_ne_zero hb)
    rw [Int64.toInt_mod, Int.abs_eq_natAbs, Int.abs_eq_natAbs, Int.natAbs_tmod]
    exact Int.ofNat_lt.mpr (Nat.mod_lt _ hpos)
  sided := by
    have hsign := Int.sign_tmod a.toInt b.toInt
    rw [Int64.toInt_mod]
    split at hsign
    · exact .inl (Int.sign_eq_zero_iff_zero.mp hsign)
    · exact .inr hsign

/-! ## Shifts -/

/-- The number that the low six bits of a shift count stand for. -/
def lowSix (count : Int64) : Nat :=
  (count.toInt % 64).toNat

/-- A word and its unsigned reading differ by a multiple of the number of words. -/
theorem toInt_modEq_toNat (a : Int64) : a.toInt ≡ a.toUInt64.toNat [ZMOD 2 ^ 64] := by
  show a.toBitVec.toInt % 2 ^ 64 = (a.toBitVec.toNat : Int) % 2 ^ 64
  rw [BitVec.toInt_eq_toNat_bmod]
  exact Int.bmod_emod

/-- The bits of a count that are looked at are its low ones, also where it is negative. -/
theorem shiftCount_eq_lowSix (count : Int64) : shiftCount count = lowSix count := by
  have hbits : count.toInt % 64 = (count.toUInt64.toNat : Int) % 64 :=
    (toInt_modEq_toNat count).of_dvd (by decide : (64 : Int) ∣ 2 ^ 64)
  show count.toUInt64.toNat % 64 = (count.toInt % 64).toNat
  omega

theorem shiftCount_lt (count : Int64) : shiftCount count < 64 :=
  Nat.mod_lt _ (by decide)

/-- Reducing a small count to six bits once more leaves it as it is. -/
theorem smod_ofNat : ∀ k < 64, (Int64.ofNat k).toBitVec.smod 64 = BitVec.ofNat 64 k := by
  decide

theorem toNat_ofNat_of_lt {k : Nat} (hk : k < 64) : (BitVec.ofNat 64 k).toNat = k := by
  rw [BitVec.toNat_ofNat]
  omega

/-- A shift to the left multiplies, and wraps. -/
theorem toInt_shiftLeft_modEq (a : Int64) {k : Nat} (hk : k < 64) :
    (a <<< Int64.ofNat k).toInt ≡ a.toInt * 2 ^ k [ZMOD 2 ^ 64] := by
  have hshift : (a <<< Int64.ofNat k).toInt = ((a.toUInt64.toNat <<< k : Nat) : Int).bmod (2 ^ 64) := by
    show (a <<< Int64.ofNat k).toBitVec.toInt = _
    rw [Int64.toBitVec_shiftLeft, smod_ofNat k hk, BitVec.shiftLeft_eq', toNat_ofNat_of_lt hk,
      BitVec.toInt_shiftLeft]
    rfl
  calc (a <<< Int64.ofNat k).toInt
      ≡ ((a.toUInt64.toNat <<< k : Nat) : Int) [ZMOD 2 ^ 64] := by
        rw [hshift]
        exact Int.bmod_emod
    _ = (a.toUInt64.toNat : Int) * 2 ^ k := by
        rw [Nat.shiftLeft_eq]
        push_cast
        rfl
    _ ≡ a.toInt * 2 ^ k [ZMOD 2 ^ 64] := (toInt_modEq_toNat a).symm.mul_right _

/-- A shift to the right that keeps the sign divides toward the lower side. -/
theorem toInt_shiftRight (a : Int64) {k : Nat} (hk : k < 64) :
    (a >>> Int64.ofNat k).toInt = a.toInt.fdiv (2 ^ k) := by
  have hpower : (0 : Int) ≤ 2 ^ k := Int.pow_nonneg (by decide)
  show (a >>> Int64.ofNat k).toBitVec.toInt = _
  rw [Int64.toBitVec_shiftRight, smod_ofNat k hk, BitVec.sshiftRight_eq', toNat_ofNat_of_lt hk,
    BitVec.toInt_sshiftRight, Int.shiftRight_eq_div_pow, Int.fdiv_eq_ediv_of_nonneg _ hpower]
  push_cast
  rfl

/-- A shift to the right that fills with zeros divides the unsigned value. -/
theorem toNat_shiftRight (u : UInt64) {k : Nat} (hk : k < 64) :
    (u >>> UInt64.ofNat k).toNat = u.toNat / 2 ^ k := by
  have hcount : (UInt64.ofNat k).toNat % 64 = k := by
    rw [UInt64.toNat_ofNat']
    omega
  rw [UInt64.toNat_shiftRight, hcount, Nat.shiftRight_eq_div_pow]

end Word

/-! ## Evaluation -/

namespace Evaluation

open Work Word

/-- An operator with two operands is applied to their values, once both are known. -/
theorem runOn_eval_binary (r : Draft) {o : Operator} {f : Int64 → Int64 → Option Int64}
    (ho : o.binary? = some f) {x y : Expr} {a b : Int64} {before between after : Session}
    (hx : (eval r x).runOn before = (.ok a, between))
    (hy : (eval r y).runOn between = (.ok b, after)) :
    (eval r (.op o [x, y])).runOn before =
      (match f a b with
        | some value => .ok value
        | none => .error (.divisionByZero (r.renderExpr (.op o [x, y]))), after) := by
  rw [eval_of_binary? r ho, runOn_bind_of_ok hx, runOn_bind_of_ok hy]
  cases f a b <;> rfl

section

variable (r : Draft) {x y : Expr} {a b : Int64} {before between after : Session}
  (hx : (eval r x).runOn before = (.ok a, between))
  (hy : (eval r y).runOn between = (.ok b, after))
include hx hy

/-- **Division and shifts.** A quotient or a remainder fails exactly where the divisor is zero, and
otherwise the two are those of truncating division. A shift by the low six bits of its count
multiplies by their power of two and wraps, or divides by it, the signed or the unsigned value. -/
theorem eval_divides_and_shifts :
    (∀ o ∈ [Operator.div, .rem], (eval r (.op o [x, y])).runOn before =
        (.error (.divisionByZero (r.renderExpr (.op o [x, y]))), after) ↔ b = 0) ∧
    (b ≠ 0 → ∃ quotient rest, (eval r (.op .div [x, y])).runOn before = (.ok quotient, after) ∧
      (eval r (.op .rem [x, y])).runOn before = (.ok rest, after) ∧ Divided a b quotient rest) ∧
    ∃ left right filled, (eval r (.op .shl [x, y])).runOn before = (.ok left, after) ∧
      (eval r (.op .shr [x, y])).runOn before = (.ok right, after) ∧
      (eval r (.op .ushr [x, y])).runOn before = (.ok filled, after) ∧
      left.toInt ≡ a.toInt * 2 ^ lowSix b [ZMOD 2 ^ 64] ∧
      right.toInt = a.toInt.fdiv (2 ^ lowSix b) ∧
      filled.toUInt64.toNat = a.toUInt64.toNat / 2 ^ lowSix b := by
  have hdiv := runOn_eval_binary r (o := .div) rfl hx hy
  have hrem := runOn_eval_binary r (o := .rem) rfl hx hy
  have hshl := runOn_eval_binary r (o := .shl) rfl hx hy
  have hshr := runOn_eval_binary r (o := .shr) rfl hx hy
  have hushr := runOn_eval_binary r (o := .ushr) rfl hx hy
  have hcount := shiftCount_lt b
  rw [← shiftCount_eq_lowSix b]
  refine ⟨fun o ho => ?_, fun hb => ?_, _, _, _, hshl, hshr, hushr,
    toInt_shiftLeft_modEq a hcount, toInt_shiftRight a hcount, toNat_shiftRight _ hcount⟩
  · simp only [List.mem_cons, List.not_mem_nil, or_false] at ho
    rcases ho with rfl | rfl
    · rw [hdiv]
      by_cases hb : b = 0 <;> simp [hb]
    · rw [hrem]
      by_cases hb : b = 0 <;> simp [hb]
  · rw [if_neg hb] at hdiv hrem
    exact ⟨_, _, hdiv, hrem, divided a hb⟩

end

/-- The one quotient that is no word, and a count with all six bits. -/
theorem eval_divides_and_shifts_overflowing :
    let r : Draft := { name := "f", address := 0, stmts := #[], body := ⟨0⟩ }
    let session : Session := ⟨[], .new {} (.new .little 64), {}⟩
    let x : Expr := .ptr 0x8000000000000000
    let y : Expr := .op .not [.int 0]
    ∃ quotient rest left right filled : Int64,
      (eval r (.op .div [x, y])).runOn session = (.ok quotient, session) ∧
      (eval r (.op .rem [x, y])).runOn session = (.ok rest, session) ∧
      (eval r (.op .shl [x, y])).runOn session = (.ok left, session) ∧
      (eval r (.op .shr [x, y])).runOn session = (.ok right, session) ∧
      (eval r (.op .ushr [x, y])).runOn session = (.ok filled, session) ∧
      quotient.toInt = -2 ^ 63 ∧ rest.toInt = 0 ∧ left.toInt ≡ 0 [ZMOD 2 ^ 64] ∧
      right.toInt = -1 ∧ filled.toUInt64.toNat = 1 := by
  intro r session x y
  have hx : (eval r x).runOn session = (.ok Int64.minValue, session) := rfl
  have hy : (eval r y).runOn session = (.ok (-1), session) := rfl
  obtain ⟨-, hdivides, left, right, filled, hshl, hshr, hushr, hleft, hright, hfilled⟩ :=
    eval_divides_and_shifts r hx hy
  obtain ⟨quotient, rest, hdiv, hrem, hdivided⟩ := hdivides (by decide)
  obtain ⟨hquotient, hrest⟩ := hdivided.overflows (by decide) (by decide)
  exact ⟨quotient, rest, left, right, filled, hdiv, hrem, hshl, hshr, hushr, hquotient, hrest,
    hleft.trans (by decide), hright.trans (by decide), hfilled.trans (by decide)⟩

end Evaluation

end RoutineEmulator
