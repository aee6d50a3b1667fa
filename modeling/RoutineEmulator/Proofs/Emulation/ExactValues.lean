import Mathlib.Data.Int.Bitwise
import Mathlib.Data.Int.ModEq
import RoutineEmulator.Emulation.Evaluation
import RoutineEmulator.Proofs.Simulation.Work
/-!
Exact values.

Constants, sums, differences, products and bitwise operations also have a value among all integers,
where nothing wraps and a bitwise operation sees the infinitely many bits of its operands. The laws
here say that an operation on words gives the word of the exact result. So an evaluation that wraps
at every step gives the exact value, wrapped once.
-/

namespace RoutineEmulator

/-! ## Words of integers -/

namespace Word

variable {x y : Int64} {m n : Int} {i : Nat}

theorem eq_of_bits (h : ∀ i < 64, x.toBitVec.getLsbD i = y.toBitVec.getLsbD i) : x = y :=
  Int64.toBitVec_inj.mp (BitVec.eq_of_getLsbD_eq h)

/-- The bits of the word of an integer are the lowest ones of the integer. -/
theorem bit_ofInt (hi : i < 64) : (Int64.ofInt n).toBitVec.getLsbD i = n.testBit i := by
  rw [Int64.toBitVec_ofInt]
  cases n with
  | ofNat m =>
      show (BitVec.ofInt 64 (m : Int)).getLsbD i = m.testBit i
      rw [BitVec.ofInt_natCast, BitVec.getLsbD_ofNat, decide_eq_true hi, Bool.true_and]
  | negSucc m =>
      show _ = !m.testBit i
      rw [BitVec.ofInt_negSucc_eq_not_ofNat, BitVec.getLsbD_not, BitVec.getLsbD_ofNat,
        decide_eq_true hi, Bool.true_and, Bool.true_and]

theorem ofInt_lnot (n : Int) : Int64.ofInt n.lnot = ~~~Int64.ofInt n :=
  eq_of_bits fun i hi => by
    rw [Int64.toBitVec_not, BitVec.getLsbD_not, bit_ofInt hi, bit_ofInt hi, Int.testBit_lnot,
      decide_eq_true hi, Bool.true_and]

theorem ofInt_land (m n : Int) : Int64.ofInt (m.land n) = Int64.ofInt m &&& Int64.ofInt n :=
  eq_of_bits fun i hi => by
    rw [Int64.toBitVec_and, BitVec.getLsbD_and, bit_ofInt hi, bit_ofInt hi, bit_ofInt hi,
      Int.testBit_land]

theorem ofInt_lor (m n : Int) : Int64.ofInt (m.lor n) = Int64.ofInt m ||| Int64.ofInt n :=
  eq_of_bits fun i hi => by
    rw [Int64.toBitVec_or, BitVec.getLsbD_or, bit_ofInt hi, bit_ofInt hi, bit_ofInt hi,
      Int.testBit_lor]

theorem ofInt_xor (m n : Int) : Int64.ofInt (m.xor n) = Int64.ofInt m ^^^ Int64.ofInt n :=
  eq_of_bits fun i hi => by
    rw [Int64.toBitVec_xor, BitVec.getLsbD_xor, bit_ofInt hi, bit_ofInt hi, bit_ofInt hi,
      Int.testBit_lxor]

theorem ofInt_toNat (address : UInt64) : Int64.ofInt address.toNat = address.toInt64 := by
  apply Int64.toBitVec_inj.mp
  rw [Int64.toBitVec_ofInt, BitVec.ofInt_natCast]
  exact BitVec.ofNat_toNat 64 address.toBitVec

/-- The word of an integer is the only one that differs from it by a multiple of the number of
words. -/
theorem modEq_iff_eq_ofInt : x.toInt ≡ n [ZMOD 2 ^ 64] ↔ x = Int64.ofInt n := by
  have hcast : ((2 ^ 64 : Nat) : Int) = 2 ^ 64 := rfl
  rw [Int.ModEq, ← hcast, eq_comm (a := x), Int64.ofInt_eq_iff_bmod_eq_toInt]
  constructor
  · intro hmod
    calc n.bmod (2 ^ 64) = x.toInt.bmod (2 ^ 64) := by rw [← Int.emod_bmod, ← hmod, Int.emod_bmod]
      _ = x.toInt := Int64.toInt_bmod x
  · intro hbmod
    rw [← hbmod, Int.bmod_emod]

end Word

/-! ## Operators -/

namespace Operator

/-- What an operator with one operand does to an integer of any size. -/
def exactUnary? : Operator → Option (Int → Int)
  | neg => some fun a => -a
  | not => some Int.lnot
  | _ => none

/-- What an operator with two operands does to integers of any size. -/
def exactBinary? : Operator → Option (Int → Int → Int)
  | add => some fun a b => a + b
  | sub => some fun a b => a - b
  | mul => some fun a b => a * b
  | and => some Int.land
  | or => some Int.lor
  | xor => some Int.xor
  | _ => none

variable {o : Operator}

/-- An operator with an exact result gives the word of this result. -/
theorem exists_unary?_of_exactUnary? {g : Int → Int} (h : o.exactUnary? = some g) :
    ∃ f, o.unary? = some f ∧ ∀ m, f (Int64.ofInt m) = Int64.ofInt (g m) := by
  cases o with
  | neg =>
      cases h
      exact ⟨_, rfl, fun m => (Int64.ofInt_neg m).symm⟩
  | not =>
      cases h
      exact ⟨_, rfl, fun m => (Word.ofInt_lnot m).symm⟩
  | _ => cases h

theorem exists_binary?_of_exactBinary? {g : Int → Int → Int}
    (h : o.exactBinary? = some g) :
    ∃ f : Int64 → Int64 → Int64, o.binary? = some (fun a b => some (f a b)) ∧
      ∀ m n, f (Int64.ofInt m) (Int64.ofInt n) = Int64.ofInt (g m n) := by
  cases o with
  | add =>
      cases h
      exact ⟨_, rfl, fun m n => (Int64.ofInt_add m n).symm⟩
  | sub =>
      cases h
      exact ⟨_, rfl, fun m n => (Int64.ofInt_sub m n).symm⟩
  | mul =>
      cases h
      exact ⟨_, rfl, fun m n => (Int64.ofInt_mul m n).symm⟩
  | and =>
      cases h
      exact ⟨_, rfl, fun m n => (Word.ofInt_land m n).symm⟩
  | or =>
      cases h
      exact ⟨_, rfl, fun m n => (Word.ofInt_lor m n).symm⟩
  | xor =>
      cases h
      exact ⟨_, rfl, fun m n => (Word.ofInt_xor m n).symm⟩
  | _ => cases h

end Operator

/-! ## Expressions -/

/-- The value among all integers of a tree of constants with sums, differences, products, negations
and bitwise operations, each with its number of operands. No other expression has one. -/
def Expr.exactValue? : Expr → Option Int
  | int value => some value.toInt
  | ptr address => some address.toNat
  | op o [a] => do return (← o.exactUnary?) (← exactValue? a)
  | op o [a, b] => do return (← o.exactBinary?) (← exactValue? a) (← exactValue? b)
  | _ => none

namespace Evaluation

open Work

variable (r : Draft) {o : Operator} {a b e : Expr}

theorem eval_unary {f : Int64 → Int64} (h : o.unary? = some f) :
    eval r (.op o [a]) = (do return f (← eval r a)) := by
  rw [eval, h]
  all_goals
    intros
    subst_vars
    cases h

/-- The values of both operands are found before the operator is applied to them. -/
theorem eval_of_binary? {f : Int64 → Int64 → Option Int64} (h : o.binary? = some f) :
    eval r (.op o [a, b]) = (do
      let left ← eval r a
      let right ← eval r b
      match f left right with
      | some value => return value
      | none => Work.fail (.divisionByZero (r.renderExpr (.op o [a, b])))) := by
  rw [eval]
  · exact h ▸ rfl
  all_goals
    intros
    subst_vars
    cases h

theorem eval_binary {f : Int64 → Int64 → Int64} (h : o.binary? = some fun a b => some (f a b)) :
    eval r (.op o [a, b]) = (do return f (← eval r a) (← eval r b)) :=
  eval_of_binary? r h

/-- An expression with an exact value is evaluated to the word of it. -/
theorem eval_of_exactValue? {n : Int} (h : e.exactValue? = some n) :
    eval r e = pure (Int64.ofInt n) := by
  induction e using Expr.exactValue?.induct generalizing n with
  | case1 value =>
      rw [Expr.exactValue?] at h
      cases h
      rw [eval, Int64.ofInt_toInt]
  | case2 address =>
      rw [Expr.exactValue?] at h
      cases h
      rw [eval, Word.ofInt_toNat]
  | case3 o a iha =>
      rw [Expr.exactValue?] at h
      obtain ⟨g, ho, h⟩ := Option.bind_eq_some_iff.mp h
      obtain ⟨m, ha, h⟩ := Option.bind_eq_some_iff.mp h
      cases h
      obtain ⟨f, hf, hword⟩ := Operator.exists_unary?_of_exactUnary? ho
      rw [eval_unary r hf, iha ha, pure_bind, hword]
  | case4 o a b iha ihb =>
      rw [Expr.exactValue?] at h
      obtain ⟨g, ho, h⟩ := Option.bind_eq_some_iff.mp h
      obtain ⟨m, ha, h⟩ := Option.bind_eq_some_iff.mp h
      obtain ⟨n, hb, h⟩ := Option.bind_eq_some_iff.mp h
      cases h
      obtain ⟨f, hf, hword⟩ := Operator.exists_binary?_of_exactBinary? ho
      rw [eval_binary r hf, iha ha, ihb hb, pure_bind, pure_bind, hword]
  | case5 e hint hptr hunary hbinary =>
      rw [Expr.exactValue?] at h
      · cases h
      all_goals assumption

/-- **Evaluation wraps the exact value.** An expression with an exact value can be evaluated, and its
value is the one signed word that differs from the exact value by a multiple of 2 to the power of 64,
however large the exact value and those on the way to it are. -/
theorem eval_wraps_exact_value (r : Draft) {e : Expr} {n : Int} (h : e.exactValue? = some n) :
    ∃ value : Int64, (∀ session, (eval r e).runOn session = (.ok value, session)) ∧
      ∀ word : Int64, word.toInt ≡ n [ZMOD 2 ^ 64] ↔ word = value :=
  ⟨Int64.ofInt n, fun session => by rw [eval_of_exactValue? r h, runOn_pure],
    fun _ => Word.modEq_iff_eq_ofInt⟩

/-- The square of the last address meets the complement of a difference that no word is. The negated
result has 129 bits, and all of them but one are wrapped away. -/
theorem eval_wraps_exact_value_square :
    let r : Draft := { name := "f", address := 0, stmts := #[], body := ⟨0⟩ }
    let square : Expr := .op .mul [.ptr 0xffffffffffffffff, .ptr 0xffffffffffffffff]
    let difference : Expr := .op .sub [.ptr 0x8000000000000000, .int Int64.minValue]
    let e : Expr := .op .neg [.op .xor [square, .op .not [difference]]]
    e.exactValue? = some 340282366920938463444927863358058659842 ∧
      ∀ session, (eval r e).runOn session = (.ok 2, session) := by
  intro r square difference e
  have hexact : e.exactValue? = some 340282366920938463444927863358058659842 := by decide
  obtain ⟨value, heval, hword⟩ := eval_wraps_exact_value r hexact
  obtain rfl : 2 = value := (hword 2).mp (by decide)
  exact ⟨hexact, heval⟩

end Evaluation

end RoutineEmulator
