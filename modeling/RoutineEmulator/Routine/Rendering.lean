import RoutineEmulator.Routine.Arena
import RoutineEmulator.Text.Hexadecimal
/-!
C-like text of expressions and statements.

A compound statement is written as its header. The text of a statement is what a trace records.
-/

namespace RoutineEmulator

open Text (hexUpper)

/-- Wraps a text in parentheses where they are needed. -/
def parenthesised (needed : Bool) (text : String) : String :=
  if needed then "(" ++ text ++ ")" else text

namespace Expr

/-- Small integers in decimal, all others in hexadecimal behind their sign. -/
def renderInt (value : Int64) : String :=
  let n := value.toInt
  if -9 ≤ n ∧ n ≤ 9 then toString n
  else if n < 0 then "-0x" ++ hexUpper n.natAbs
  else "0x" ++ hexUpper n.natAbs

/-- Whether the expression needs parentheses as an operand of `parent`: it is an operation with
an operator between its operands that binds no tighter. -/
def bindsLooser (parent : Operator) : Expr → Bool
  | op o _ => decide (o.precedence ≤ parent.precedence) && !o.isUnary
  | _ => false

/-- Whether the expression needs parentheses behind an operator with one operand. -/
def isSpread : Expr → Bool
  | op o _ => !o.isUnary
  | _ => false

/-- Whether a computed call target needs parentheses: any operation does. -/
def isOperation : Expr → Bool
  | op .. => true
  | _ => false

mutual

/-- The text of an expression; `name` gives the text of an identifier. -/
def render (name : IdentId → String) : Expr → String
  | int value => renderInt value
  | ptr address => "0x" ++ hexUpper address.toNat
  | ident id => name id
  | predicate inner => render name inner
  | call callee callsite args =>
    (match callee with
      | some callee => callee.name
      | none => parenthesised callsite.isOperation (render name callsite))
      ++ "(" ++ renderAll name args ++ ")"
  | op .cond [c, a, b] =>
    parenthesised (c.bindsLooser .cond) (render name c) ++ " ? "
      ++ parenthesised (a.bindsLooser .cond) (render name a) ++ " : "
      ++ parenthesised (b.bindsLooser .cond) (render name b)
  | op (.custom symbol) [] => symbol
  | op (.custom symbol) args => symbol ++ "(" ++ renderAll name args ++ ")"
  | op (.cast type) [e] => "(" ++ type ++ ")" ++ parenthesised e.isSpread (render name e)
  | op .logIdent [e] => render name e
  | op .sizeOf [e] => "sizeof(" ++ render name e ++ ")"
  | op o [e] =>
    if o.isUnary then o.symbol ++ parenthesised e.isSpread (render name e)
    else o.symbol ++ "(" ++ render name e ++ ")"
  | op o [a, b] =>
    parenthesised (a.bindsLooser o) (render name a) ++ " " ++ o.symbol ++ " "
      ++ parenthesised (b.bindsLooser o) (render name b)
  | op o args => o.symbol ++ "(" ++ renderAll name args ++ ")"

/-- The texts of several expressions, separated by commas. -/
def renderAll (name : IdentId → String) : List Expr → String
  | [] => ""
  | e :: rest => render name e ++ renderRest name rest

/-- The texts of the expressions after the first one, each behind a comma. -/
def renderRest (name : IdentId → String) : List Expr → String
  | [] => ""
  | e :: rest => ", " ++ render name e ++ renderRest name rest

end

end Expr

namespace Draft

/-- The text of an identifier: its name, or its number where the table lacks it. -/
def identName (r : Draft) (id : IdentId) : String :=
  match r.ident? id with
  | some ident => ident.name
  | none => "<ident #" ++ toString id.index ++ ">"

/-- The text of a jump target: the name of the label. -/
def labelName (r : Draft) (id : StmtId) : String :=
  match r.stmt? id with
  | some (.label name) => name
  | _ => "<stmt #" ++ toString id.index ++ ">"

/-- The text of an expression of this routine. -/
def renderExpr (r : Draft) (e : Expr) : String :=
  e.render r.identName

/-- The text of a call, `name(args)`. -/
def renderCall (r : Draft) (c : Call) : String :=
  r.renderExpr c.toExpr

/-- The text of the arms of an `if`. -/
def renderBranches (r : Draft) (branches : List Branch) : String :=
  " else ".intercalate (branches.map fun b => "if(" ++ r.renderExpr b.predicate ++ ") \x7b...\x7d")

/-- The text of a statement, or of its header. -/
def render (r : Draft) : Stmt → String
  | .assign lhs rhs compound declare =>
    (match declare, lhs.ident?.bind r.ident? with
      | true, some ident => ident.type ++ " "
      | _, _ => "")
      ++ r.renderExpr lhs ++ " " ++ (compound.elim "" Operator.symbol) ++ "= " ++ r.renderExpr rhs
  | .ifElse branches default =>
    r.renderBranches branches ++ (if default.isSome then " else \x7b...\x7d" else "")
  | .loop .while predicate _ => "while(" ++ r.renderExpr predicate ++ ")"
  | .loop .doWhile predicate _ => "do \x7b...\x7d while(" ++ r.renderExpr predicate ++ ")"
  | .loop .for predicate _ => "for(; " ++ r.renderExpr predicate ++ "; )"
  | .goto label => "goto " ++ r.labelName label
  | .label name => name ++ ":"
  | .ret none => "return"
  | .ret (some value) => "return " ++ r.renderExpr value
  | .jumpFar target => "jumpfar " ++ r.renderExpr target
  | .call call => r.renderCall call
  | .breakLoop none => "break"
  | .breakLoop (some label) => "break " ++ r.labelName label
  | .continueLoop none => "continue"
  | .continueLoop (some label) => "continue " ++ r.labelName label
  | .decl ident =>
    match r.ident? ident with
    | some ident => ident.type ++ " " ++ ident.name
    | none => "<ident #" ++ toString ident.index ++ ">"
  | .block _ => "\x7b...\x7d"
  | .switch value _ _ => "switch(" ++ r.renderExpr value ++ ") \x7b...\x7d"

/-- The text of the statement at a position. -/
def renderStmt (r : Draft) (id : StmtId) : String :=
  match r.stmt? id with
  | some s => r.render s
  | none => "<stmt #" ++ toString id.index ++ ">"

end Draft

end RoutineEmulator
