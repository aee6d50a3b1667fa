import RoutineEmulator.Memory.Words
import RoutineEmulator.Routine.Operator
/-!
Arithmetic on 64-bit values.

Sums, differences and products wrap. Division goes toward zero. Shift counts use their low six bits.
Comparisons are signed, and a truth value is 1 or 0.
-/

namespace RoutineEmulator

/-- The value of a truth value. -/
def ofTruth (b : Bool) : Int64 :=
  if b then 1 else 0

/-- The number of places that a shift count stands for. -/
def shiftCount (count : Int64) : Nat :=
  count.toUInt64.toNat % 64

namespace Operator

/-- What an operator with one operand does to its value. -/
def unary? : Operator → Option (Int64 → Int64)
  | neg => some fun a => -a
  | not => some fun a => ~~~a
  | logNot => some fun a => ofTruth (a == 0)
  | logIdent => some id
  | _ => none

/-- What an operator with two operands does to their values; none for a division by zero. -/
def binary? : Operator → Option (Int64 → Int64 → Option Int64)
  | add => some fun a b => some (a + b)
  | sub => some fun a b => some (a - b)
  | mul => some fun a b => some (a * b)
  | div => some fun a b => if b = 0 then none else some (a / b)
  | rem => some fun a b => if b = 0 then none else some (a % b)
  | and => some fun a b => some (a &&& b)
  | or => some fun a b => some (a ||| b)
  | xor => some fun a b => some (a ^^^ b)
  | shl => some fun a b => some (a <<< Int64.ofNat (shiftCount b))
  | shr => some fun a b => some (a >>> Int64.ofNat (shiftCount b))
  | ushr => some fun a b => some (a.toUInt64 >>> UInt64.ofNat (shiftCount b)).toInt64
  | eq => some fun a b => some (ofTruth (a == b))
  | ne => some fun a b => some (ofTruth (a != b))
  | lt => some fun a b => some (ofTruth (decide (a < b)))
  | le => some fun a b => some (ofTruth (decide (a ≤ b)))
  | gt => some fun a b => some (ofTruth (decide (b < a)))
  | ge => some fun a b => some (ofTruth (decide (b ≤ a)))
  | _ => none

end Operator

/-- A value converted to a type of this size: its low bytes, or all of it for eight bytes and
more. -/
def truncateTo (size : Nat) (value : Int64) : Int64 :=
  if 8 ≤ size then value else (lowBytes value.toUInt64 size).toInt64

end RoutineEmulator
