import RoutineEmulator.Routine.Arena
/-!
Where the identifiers of a routine stand.

`Expr.Mentions` and `Stmt.Mentions` say what it is to refer to an identifier, with one rule for every
place that can hold one. The check of a routine goes through a list instead, and this list has
exactly the identifiers that a statement mentions: no place is passed over.
-/

namespace RoutineEmulator

/-! ## Expressions -/

/-- An expression refers to an identifier, at any depth. -/
inductive Expr.Mentions (id : IdentId) : Expr → Prop
  | ident : Mentions id (.ident id)
  | operand {o : Operator} {operands : List Expr} {e : Expr} :
      e ∈ operands → Mentions id e → Mentions id (.op o operands)
  | predicate {inner : Expr} : Mentions id inner → Mentions id (.predicate inner)
  | callsite {callee : Option Callee} {site : Expr} {args : List Expr} :
      Mentions id site → Mentions id (.call callee site args)
  | argument {callee : Option Callee} {site : Expr} {args : List Expr} {e : Expr} :
      e ∈ args → Mentions id e → Mentions id (.call callee site args)

namespace Expr

variable {id : IdentId}

theorem mentions_ident_iff {other : IdentId} : (ident other).Mentions id ↔ other = id := by
  constructor
  · rintro ⟨⟩
    rfl
  · rintro rfl
    exact .ident

theorem mentions_op_iff {o : Operator} {operands : List Expr} :
    (op o operands).Mentions id ↔ ∃ e ∈ operands, e.Mentions id := by
  constructor
  · intro h
    cases h with
    | operand hmem hid => exact ⟨_, hmem, hid⟩
  · rintro ⟨e, hmem, hid⟩
    exact .operand hmem hid

theorem mentions_predicate_iff {inner : Expr} :
    (predicate inner).Mentions id ↔ inner.Mentions id := by
  constructor
  · intro h
    cases h with
    | predicate hid => exact hid
  · exact .predicate

/-- A call mentions what its callsite or one of its arguments mentions. -/
theorem mentions_call_iff {callee : Option Callee} {site : Expr} {args : List Expr} :
    (call callee site args).Mentions id ↔ site.Mentions id ∨ ∃ e ∈ args, e.Mentions id := by
  constructor
  · intro h
    cases h with
    | callsite hid => exact Or.inl hid
    | argument hmem hid => exact Or.inr ⟨_, hmem, hid⟩
  · rintro (hid | ⟨e, hmem, hid⟩)
    · exact .callsite hid
    · exact .argument hmem hid

/-- The identifiers among some expressions. -/
theorem mem_filterMap_ident?_iff {es : List Expr} :
    id ∈ es.filterMap ident? ↔ ident id ∈ es := by
  rw [List.mem_filterMap]
  constructor
  · rintro ⟨e, hmem, he⟩
    cases e with
    | ident other =>
        obtain rfl : other = id := Option.some.inj he
        exact hmem
    | _ => cases he
  · intro hmem
    exact ⟨ident id, hmem, rfl⟩

mutual

/-- The listing of an expression reaches every identifier that it mentions. -/
theorem ident_mem_subexprs_iff : ∀ e : Expr, ident id ∈ e.subexprs ↔ e.Mentions id
  | op o operands => by
      rw [subexprs, mentions_op_iff, ← ident_mem_subexprsOfAll_iff operands]
      simp
  | predicate inner => by
      rw [subexprs, mentions_predicate_iff, ← ident_mem_subexprs_iff inner]
      simp
  | call callee site args => by
      rw [subexprs, mentions_call_iff, ← ident_mem_subexprs_iff site,
        ← ident_mem_subexprsOfAll_iff args]
      simp
  | int v => by
      rw [subexprs]
      refine ⟨fun h => ?_, fun h => ?_⟩
      · simp at h
      · cases h
  | ptr a => by
      rw [subexprs]
      refine ⟨fun h => ?_, fun h => ?_⟩
      · simp at h
      · cases h
  | ident other => by
      rw [subexprs, mentions_ident_iff]
      simp [eq_comm]

theorem ident_mem_subexprsOfAll_iff :
    ∀ es : List Expr, ident id ∈ subexprsOfAll es ↔ ∃ e ∈ es, e.Mentions id
  | [] => by simp [subexprsOfAll]
  | e :: rest => by
      rw [subexprsOfAll, List.mem_append, ident_mem_subexprs_iff e,
        ident_mem_subexprsOfAll_iff rest]
      simp

end

end Expr

/-! ## Statements -/

/-- A statement refers to an identifier, in an expression that it holds or as a declaration. -/
inductive Stmt.Mentions (id : IdentId) : Stmt → Prop
  | target {lhs rhs : Expr} {compound : Option Operator} {declare : Bool} :
      lhs.Mentions id → Mentions id (.assign lhs rhs compound declare)
  | value {lhs rhs : Expr} {compound : Option Operator} {declare : Bool} :
      rhs.Mentions id → Mentions id (.assign lhs rhs compound declare)
  | branch {branches : List Branch} {default : Option StmtId} {b : Branch} :
      b ∈ branches → b.predicate.Mentions id → Mentions id (.ifElse branches default)
  | loop {kind : LoopKind} {predicate : Expr} {body : StmtId} :
      predicate.Mentions id → Mentions id (.loop kind predicate body)
  | ret {value : Expr} : value.Mentions id → Mentions id (.ret (some value))
  | jumpFar {target : Expr} : target.Mentions id → Mentions id (.jumpFar target)
  | call {c : Call} : c.toExpr.Mentions id → Mentions id (.call c)
  | switch {value : Expr} {cases : List SwitchCase} {default : Option StmtId} :
      value.Mentions id → Mentions id (.switch value cases default)
  | decl : Mentions id (.decl id)

section Statements

variable {id : IdentId}

/-- The listing of a call reaches every identifier that the call mentions. -/
theorem Call.ident_mem_subexprs_iff {c : Call} :
    Expr.ident id ∈ c.subexprs ↔ c.toExpr.Mentions id := by
  rw [Call.subexprs, List.mem_append, Expr.ident_mem_subexprs_iff,
    Expr.ident_mem_subexprsOfAll_iff, Call.toExpr, Expr.mentions_call_iff]

/-- The check of a statement looks at exactly the identifiers that the statement mentions. -/
theorem Draft.mem_identsOf_iff {s : Stmt} : id ∈ Draft.identsOf s ↔ s.Mentions id := by
  unfold Draft.identsOf
  rw [List.mem_append, Expr.mem_filterMap_ident?_iff]
  constructor
  · intro h
    cases s with
    | assign lhs rhs compound declare =>
        simp only [Stmt.exprs, List.mem_append, Expr.ident_mem_subexprs_iff, List.not_mem_nil,
          or_false] at h
        rcases h with h | h
        · exact .target h
        · exact .value h
    | ifElse branches default =>
        simp only [Stmt.exprs, List.mem_flatMap, Expr.ident_mem_subexprs_iff, List.not_mem_nil,
          or_false] at h
        obtain ⟨b, hmem, h⟩ := h
        exact .branch hmem h
    | loop kind predicate body =>
        simp only [Stmt.exprs, Expr.ident_mem_subexprs_iff, List.not_mem_nil, or_false] at h
        exact .loop h
    | ret value =>
        cases value with
        | none => simp [Stmt.exprs] at h
        | some value =>
            simp only [Stmt.exprs, Expr.ident_mem_subexprs_iff, List.not_mem_nil, or_false] at h
            exact .ret h
    | jumpFar target =>
        simp only [Stmt.exprs, Expr.ident_mem_subexprs_iff, List.not_mem_nil, or_false] at h
        exact .jumpFar h
    | call c =>
        simp only [Stmt.exprs, Call.ident_mem_subexprs_iff, List.not_mem_nil, or_false] at h
        exact .call h
    | switch value cases default =>
        simp only [Stmt.exprs, Expr.ident_mem_subexprs_iff, List.not_mem_nil, or_false] at h
        exact .switch h
    | decl other =>
        rcases h with h | h
        · simp [Stmt.exprs] at h
        · obtain rfl := List.mem_singleton.mp h
          exact .decl
    | goto | label | breakLoop | continueLoop | block => simp [Stmt.exprs] at h
  · intro h
    cases h with
    | target h => simp [Stmt.exprs, Expr.ident_mem_subexprs_iff, h]
    | value h => simp [Stmt.exprs, Expr.ident_mem_subexprs_iff, h]
    | branch hmem h =>
        simp only [Stmt.exprs, List.mem_flatMap, Expr.ident_mem_subexprs_iff]
        exact Or.inl ⟨_, hmem, h⟩
    | loop h | ret h | jumpFar h | switch h =>
        simp [Stmt.exprs, Expr.ident_mem_subexprs_iff, h]
    | call h => simp [Stmt.exprs, Call.ident_mem_subexprs_iff, h]
    | decl => exact Or.inr List.mem_cons_self

end Statements

end RoutineEmulator
