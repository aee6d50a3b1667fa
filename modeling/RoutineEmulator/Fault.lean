import RoutineEmulator.Text.Hexadecimal
/-!
What can go wrong in an emulation. A fault that belongs to a statement or an expression carries its
text.
-/

namespace RoutineEmulator

/-- Why an emulation, or one access of it, fails. -/
inductive EmulationError where
  | unimplementedStatement (text : String)
  | unimplementedOperator (text : String)
  | unimplementedExpression (text : String)
  /-- No simulator knows the callee. -/
  | unresolvedCallTarget (call : String)
  /-- A variable of this class has no address. -/
  | unsupportedIdentifierClass (name : String)
  | unsupportedAssignment (text : String)
  | unknownType (signature : String)
  | notAPointerType (text : String)
  | unsupportedWidth (bytes : Nat)
  | memoryAccessFault (address : UInt64) (size : Nat)
  | missingEntryPoint (place : String)
  | divisionByZero (text : String)
  | undefinedFrameBase
  | stepLimitExceeded (limit : Nat)
  /-- The log could not be written. -/
  | logSink (cause : String)
  deriving Repr, DecidableEq, Inhabited

/-- The wording of a fault. -/
def EmulationError.message : EmulationError → String
  | unimplementedStatement text => "Unimplemented statement: " ++ text
  | unimplementedOperator text => "Unimplemented operator: " ++ text
  | unimplementedExpression text => "Unimplemented expression: " ++ text
  | unresolvedCallTarget call => "Unresolved call target: " ++ call
  | unsupportedIdentifierClass name => "Unsupported identifier class: " ++ name
  | unsupportedAssignment text => "Unsupported assignment: " ++ text
  | unknownType signature => "Unknown type: " ++ signature
  | notAPointerType text => "Not a pointer type: " ++ text
  | unsupportedWidth bytes => "Unsupported access width: " ++ toString bytes ++ " bytes"
  | memoryAccessFault address size =>
    "Memory access fault at " ++ Text.hexAddress address.toNat ++ " (" ++ toString size ++ " bytes)"
  | missingEntryPoint place => "Missing entry point: " ++ place
  | divisionByZero text => "Division by zero: " ++ text
  | undefinedFrameBase => "Frame base register is not set"
  | stepLimitExceeded limit => "Maximum step count exceeded: " ++ toString limit
  | logSink cause => "Cannot write log: " ++ cause

end RoutineEmulator
