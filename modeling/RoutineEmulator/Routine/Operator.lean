/-!
Operators of decompiled expressions: their spelling, how tightly they bind, and which of them
have a complement.
-/

namespace RoutineEmulator

/-- An operator of the decompiler's C-like expression grammar. -/
inductive Operator where
  | add | sub | mul | div | rem | neg
  | and | or | xor | not | shl | shr
  /-- Shift to the right that fills with zeros. -/
  | ushr
  | logAnd | logOr | logNot
  /-- The identity on truth values, the complement of `logNot`. -/
  | logIdent
  | eq | ne | lt | le | gt | ge
  /-- The three-operand choice `a ? b : c`. -/
  | cond
  /-- Conversion to the type with this signature. -/
  | cast (type : String)
  /-- Dereference. -/
  | ptr
  /-- Address of a variable. -/
  | ref
  | sizeOf
  /-- An operator that the decompiler knows by name only. -/
  | custom (name : String)
  deriving Repr, DecidableEq, Inhabited

namespace Operator

/-- The spelling between or before operands. -/
def symbol : Operator → String
  | add => "+"
  | sub | neg => "-"
  | mul | ptr => "*"
  | div => "/"
  | rem => "%"
  | and | ref => "&"
  | or => "|"
  | xor => "^"
  | not => "~"
  | shl => "<<"
  | shr => ">>"
  | ushr => ">>>"
  | logAnd => "&&"
  | logOr => "||"
  | logNot => "!"
  | logIdent => ""
  | eq => "=="
  | ne => "!="
  | lt => "<"
  | le => "<="
  | gt => ">"
  | ge => ">="
  | cond => "?:"
  | cast _ => "(cast)"
  | sizeOf => "sizeof"
  | custom name => name

/-- Whether the operator stands before one operand. -/
def isUnary : Operator → Bool
  | neg | not | logNot | logIdent | cast _ | ptr | ref | sizeOf => true
  | _ => false

def isComparison : Operator → Bool
  | eq | ne | lt | le | gt | ge => true
  | _ => false

/-- The target signature of a conversion. -/
def castType? : Operator → Option String
  | cast type => some type
  | _ => none

def isCast (o : Operator) : Bool :=
  o.castType?.isSome

/-- The operator that is true of the same operands exactly when this one is false, where a single
one exists. -/
def negated? : Operator → Option Operator
  | eq => some ne
  | ne => some eq
  | lt => some ge
  | ge => some lt
  | gt => some le
  | le => some gt
  | logNot => some logIdent
  | logIdent => some logNot
  | _ => none

/-- How tightly the operator binds; a larger number binds tighter. -/
def precedence : Operator → Nat
  | cond => 1
  | logOr => 2
  | logAnd => 3
  | or => 4
  | xor => 5
  | and => 6
  | eq | ne => 7
  | lt | le | gt | ge => 8
  | shl | shr | ushr => 9
  | add | sub => 10
  | mul | div | rem => 11
  | neg | not | logNot | logIdent | cast _ | ptr | ref | sizeOf => 12
  | custom _ => 13

end Operator

end RoutineEmulator
