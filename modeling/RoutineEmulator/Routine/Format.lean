import RoutineEmulator.Json.Decoding
import RoutineEmulator.Json.Reader
import RoutineEmulator.Json.Writer
import RoutineEmulator.Routine.Arena
/-!
The JSON format of routines and their parts.

An expression, a statement or an operator with data is an object whose only member names its kind;
an operator or a loop kind without data is the name alone. Encoding writes every field, decoding
lets fields with a default be left out. A decoder of a nested type recurses on the nesting that is
still allowed.
-/

namespace RoutineEmulator

open Json (Tagged Field)

/-! ## Operators -/

namespace Operator

/-- The operators without data and their names in the format. -/
def names : List (Operator × String) :=
  [(add, "add"), (sub, "sub"), (mul, "mul"), (div, "div"), (rem, "rem"), (neg, "neg"),
   (and, "and"), (or, "or"), (xor, "xor"), (not, "not"), (shl, "shl"), (shr, "shr"),
   (ushr, "u_shr"), (logAnd, "log_and"), (logOr, "log_or"), (logNot, "log_not"),
   (logIdent, "log_ident"), (eq, "eq"), (ne, "ne"), (lt, "lt"), (le, "le"), (gt, "gt"),
   (ge, "ge"), (cond, "cond"), (ptr, "ptr"), (ref, "ref"), (sizeOf, "size_of")]

def toJson : Operator → Json
  | cast type => .variant "cast" (.text type)
  | custom name => .variant "custom" (.text name)
  | o => .text ((names.find? (·.1 == o)).elim "" (·.2))

/-- The operator without data that has this name. -/
def named? (name : String) : Option Operator :=
  (names.find? (·.2 == name)).map (·.1)

def decode (depth : Nat) (value : Json) : Option Operator :=
  match Json.tagged? value with
  | some (.bare name) => named? name
  | some (.carrying tag body) =>
    if depth = 0 then none
    else match tag, body with
      | "cast", body => body.text?.map cast
      | "custom", body => body.text?.map custom
      | name, .null => named? name
      | _, _ => none
  | none => none

end Operator

/-! ## Expressions and calls -/

def Callee.toJson (c : Callee) : Json :=
  .record [("name", .text c.name), ("address", .option (.nat ·.toNat) c.address)]

def Callee.decode : Nat → Json → Option Callee
  | 0, _ => none
  | _ + 1, value => do
    match ← Json.fields? ["name", "address"] value with
    | [name, address] =>
      return {
        name := ← name.required Json.text?
        address := ← address.withDefault none (Json.nullable Json.word64?) }
    | _ => none

/-- The members of a written call, from its written parts. -/
def Call.toJsonOf (callee : Option Callee) (callsite : Json) (args : List Json) : Json :=
  .record [("callee", .option Callee.toJson callee), ("callsite", callsite), ("args", .arr args)]

/-- The call in a record, given how the expressions in it are decoded. -/
def Call.decodeOf (depth : Nat) (expr : Json → Option Expr) (exprs : Json → Option (List Expr))
    (value : Json) : Option Call := do
  match ← Json.fields? ["callee", "callsite", "args"] value with
  | [callee, callsite, args] =>
    return {
      callee := ← callee.withDefault none (Json.nullable (Callee.decode depth))
      callsite := ← callsite.required expr
      args := ← args.withDefault [] exprs }
  | _ => none

namespace Expr

mutual

def toJson : Expr → Json
  | int value => .variant "int" (.int value.toInt)
  | ptr address => .variant "ptr" (.nat address.toNat)
  | ident id => .variant "ident" (.nat id.index)
  | op o operands =>
    .variant "op" (.record [("op", o.toJson), ("operands", .arr (toJsonAll operands))])
  | predicate inner => .variant "predicate" (toJson inner)
  | call callee callsite args =>
    .variant "call" (Call.toJsonOf callee (toJson callsite) (toJsonAll args))

def toJsonAll : List Expr → List Json
  | [] => []
  | e :: rest => toJson e :: toJsonAll rest

end

/-- The expression that a value describes, nested at most so deep. -/
def decode : Nat → Json → Option Expr
  | _ + 1, .obj [(some "int", body)] => body.int64?.map int
  | _ + 1, .obj [(some "ptr", body)] => body.word64?.map ptr
  | _ + 1, .obj [(some "ident", body)] => body.word32?.map fun id => ident ⟨id⟩
  | depth + 1, .obj [(some "predicate", body)] => (decode depth body).map predicate
  | depth + 2, .obj [(some "op", body)] => do
    match ← Json.fields? ["op", "operands"] body with
    | [o, operands] =>
      let o ← o.required (Operator.decode depth)
      let operands ← operands.required fun value =>
        match depth with
        | depth + 1 => value.items?.bind (·.mapM (decode depth))
        | 0 => none
      return op o operands
    | _ => none
  | depth + 2, .obj [(some "call", body)] => do
    let call ← Call.decodeOf depth (decode depth)
      (fun value =>
        match depth with
        | depth + 1 => value.items?.bind (·.mapM (decode depth))
        | 0 => none)
      body
    return call.toExpr
  | _, _ => none

end Expr

def Call.toJson (c : Call) : Json :=
  Call.toJsonOf c.callee c.callsite.toJson (c.args.map Expr.toJson)

def Call.decode : Nat → Json → Option Call
  | 0, _ => none
  | depth + 1, value =>
    Call.decodeOf depth (Expr.decode depth) (Json.listOf Expr.decode depth) value

/-! ## Statements -/

namespace LoopKind

def toJson : LoopKind → Json
  | .while => .text "while"
  | .doWhile => .text "do_while"
  | .for => .text "for"

def named? : String → Option LoopKind
  | "while" => some .while
  | "do_while" => some .doWhile
  | "for" => some .for
  | _ => none

def decode (depth : Nat) (value : Json) : Option LoopKind :=
  match Json.tagged? value with
  | some (.bare name) => named? name
  | some (.carrying name .null) => if depth = 0 then none else named? name
  | _ => none

end LoopKind

def StmtId.toJson (id : StmtId) : Json := .nat id.index

def StmtId.decode (value : Json) : Option StmtId :=
  value.word32?.map fun id => ⟨id⟩

/-- A reference that may be left out. -/
def StmtId.decodeOption (field : Field) : Option (Option StmtId) :=
  field.withDefault none (Json.nullable StmtId.decode)

def Branch.toJson (b : Branch) : Json :=
  .record [("predicate", b.predicate.toJson), ("block", b.block.toJson)]

def Branch.decode : Nat → Json → Option Branch
  | 0, _ => none
  | depth + 1, value => do
    match ← Json.fields? ["predicate", "block"] value with
    | [predicate, block] =>
      return {
        predicate := ← predicate.required (Expr.decode depth)
        block := ← block.required StmtId.decode }
    | _ => none

def SwitchCase.toJson (c : SwitchCase) : Json :=
  .record [("values", .list (.int ·.toInt) c.values), ("block", c.block.toJson)]

def SwitchCase.decode : Nat → Json → Option SwitchCase
  | 0, _ => none
  | depth + 1, value => do
    match ← Json.fields? ["values", "block"] value with
    | [values, block] =>
      return {
        values := ← values.required (Json.listOf (fun _ => Json.int64?) depth)
        block := ← block.required StmtId.decode }
    | _ => none

namespace Stmt

/-- The name of a statement's kind and its data. -/
def toJson : Stmt → Json
  | assign lhs rhs compound declare =>
    .variant "assign" (.record
      [("lhs", lhs.toJson), ("rhs", rhs.toJson), ("compound", .option Operator.toJson compound),
       ("declare", .bool declare)])
  | ifElse branches default =>
    .variant "if" (.record
      [("branches", .list Branch.toJson branches), ("default", .option StmtId.toJson default)])
  | loop kind predicate body =>
    .variant "loop" (.record
      [("kind", kind.toJson), ("predicate", predicate.toJson), ("body", body.toJson)])
  | goto target => .variant "goto" (.record [("label", target.toJson)])
  | label name => .variant "label" (.record [("name", .text name)])
  | ret value => .variant "return" (.option Expr.toJson value)
  | jumpFar target => .variant "jump_far" (.record [("target", target.toJson)])
  | call c => .variant "call" c.toJson
  | breakLoop target => .variant "break" (.record [("label", .option StmtId.toJson target)])
  | continueLoop target => .variant "continue" (.record [("label", .option StmtId.toJson target)])
  | decl ident => .variant "decl" (.record [("ident", .nat ident.index)])
  | block stmts => .variant "block" (.record [("stmts", .list StmtId.toJson stmts)])
  | switch value cases default =>
    .variant "switch" (.record
      [("value", value.toJson), ("cases", .list SwitchCase.toJson cases),
       ("default", .option StmtId.toJson default)])

/-- The fields of the data of each kind of statement that is a record. -/
def fieldNames : String → List String
  | "assign" => ["lhs", "rhs", "compound", "declare"]
  | "if" => ["branches", "default"]
  | "loop" => ["kind", "predicate", "body"]
  | "goto" | "break" | "continue" => ["label"]
  | "label" => ["name"]
  | "jump_far" => ["target"]
  | "decl" => ["ident"]
  | "block" => ["stmts"]
  | "switch" => ["value", "cases", "default"]
  | _ => []

/-- The statement of a kind whose data is a record, from the fields of the record. -/
def ofFields (depth : Nat) (kind : String) (fields : List Field) : Option Stmt :=
  match kind, fields with
  | "assign", [lhs, rhs, compound, declare] => do
    return assign (← lhs.required (Expr.decode depth)) (← rhs.required (Expr.decode depth))
      (← compound.withDefault none (Json.nullable (Operator.decode depth)))
      (← declare.withDefault false Json.bool?)
  | "if", [branches, default] => do
    return ifElse (← branches.required (Json.listOf Branch.decode depth))
      (← StmtId.decodeOption default)
  | "loop", [kind, predicate, body] => do
    return loop (← kind.withDefault .while (LoopKind.decode depth))
      (← predicate.required (Expr.decode depth)) (← body.required StmtId.decode)
  | "goto", [target] => do return goto (← target.required StmtId.decode)
  | "label", [name] => do return label (← name.required Json.text?)
  | "jump_far", [target] => do return jumpFar (← target.required (Expr.decode depth))
  | "break", [target] => do return breakLoop (← StmtId.decodeOption target)
  | "continue", [target] => do return continueLoop (← StmtId.decodeOption target)
  | "decl", [ident] => do return decl ⟨← ident.required Json.word32?⟩
  | "block", [stmts] => do
    return block (← stmts.required (Json.listOf (fun _ => StmtId.decode) depth))
  | "switch", [value, cases, default] => do
    return switch (← value.required (Expr.decode depth))
      (← cases.required (Json.listOf SwitchCase.decode depth)) (← StmtId.decodeOption default)
  | _, _ => none

def decode : Nat → Json → Option Stmt
  | depth + 1, .obj [(some "return", body)] =>
    (Json.nullable (Expr.decode depth) body).map ret
  | depth + 1, .obj [(some "call", body)] => (Call.decode depth body).map call
  | depth + 2, .obj [(some kind, body)] => do
    ofFields depth kind (← Json.fields? (fieldNames kind) body)
  | _, _ => none

end Stmt

/-! ## Identifiers and routines -/

namespace StorageClass

def toJson : StorageClass → Json
  | .local => .text "local"
  | .global => .text "global"
  | .register => .text "register"
  | .parameter => .text "parameter"

def named? : String → Option StorageClass
  | "local" => some .local
  | "global" => some .global
  | "register" => some .register
  | "parameter" => some .parameter
  | _ => none

def decode (depth : Nat) (value : Json) : Option StorageClass :=
  match Json.tagged? value with
  | some (.bare name) => named? name
  | some (.carrying name .null) => if depth = 0 then none else named? name
  | _ => none

end StorageClass

def Identifier.toJson (i : Identifier) : Json :=
  .record
    [("id", .int i.id.toInt), ("name", .text i.name), ("class", i.storage.toJson),
     ("ty", .text i.type), ("address", .int i.address.toInt)]

def Identifier.decode : Nat → Json → Option Identifier
  | 0, _ => none
  | depth + 1, value => do
    match ← Json.fields? ["id", "name", "class", "ty", "address"] value with
    | [id, name, storage, type, address] =>
      return {
        id := ← id.withDefault 0 Json.int32?
        name := ← name.required Json.text?
        storage := ← storage.required (StorageClass.decode depth)
        type := ← type.required Json.text?
        address := ← address.withDefault 0 Json.int64? }
    | _ => none

def Draft.toJson (r : Draft) : Json :=
  .record
    [("name", .text r.name), ("address", .nat r.address.toNat),
     ("stmts", .list Stmt.toJson r.stmts.toList),
     ("idents", .list Identifier.toJson r.idents.toList), ("body", r.body.toJson)]

def Draft.decode : Nat → Json → Option Draft
  | 0, _ => none
  | depth + 1, value => do
    match ← Json.fields? ["name", "address", "stmts", "idents", "body"] value with
    | [name, address, stmts, idents, body] =>
      return {
        name := ← name.required Json.text?
        address := ← address.required Json.word64?
        stmts := (← stmts.required (Json.listOf Stmt.decode depth)).toArray
        idents := (← idents.withDefault [] (Json.listOf Identifier.decode depth)).toArray
        body := ← body.required StmtId.decode }
    | _ => none

/-! ## Documents -/

/-- Decodes a whole document. -/
def Json.decodeText? (decode : Nat → Json → Option α) (document : String) : Option α := do
  decode Json.nestingLimit (← Json.read? document)

/-- The written form of a routine. -/
def Routine.encode (r : Routine) : String :=
  r.toDraft.toJson.compact

/-- The routine in a document: none for a document that is no routine, a fault for one whose
references do not fit together. -/
def Routine.decodeText? (document : String) : Option (Except ArenaFault Routine) :=
  (Json.decodeText? Draft.decode document).map Routine.ofDraft

end RoutineEmulator
