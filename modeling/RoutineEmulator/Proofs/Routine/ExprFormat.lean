import RoutineEmulator.Proofs.Json.Lawful
import RoutineEmulator.Routine.Format
/-!
The JSON format of expressions is faithful.

The decoders of operators, calls and expressions suit their encoders at every depth. An expression
is decoded with less nesting left inside it, so the law for a depth follows from the law for all
smaller ones, whatever expression is written.
-/

namespace RoutineEmulator

open Json (Field LawfulAt)

/-! ## Operators -/

namespace Operator

/-- Operators that are written as a name do not nest. -/
theorem nesting_toJson_of_named? {name : String} {o : Operator} (h : named? name = some o) :
    o.toJson.nesting = 0 := by
  obtain ⟨entry, hentry, rfl⟩ := Option.map_eq_some_iff.mp h
  have hflat : ∀ entry ∈ names, entry.1.toJson.nesting = 0 := by decide
  exact hflat entry (List.mem_of_find?_eq_some hentry)

/-- Operators are decoded as they were encoded, by name or as a variant with the type or the name
that they carry. -/
theorem lawful (depth : Nat) : LawfulAt depth toJson (decode depth) where
  reads := by
    intro o hdepth
    cases o with
    | cast name | custom name =>
        rw [toJson, Json.nesting_variant] at hdepth
        simp [toJson, Json.variant, decode, Json.tagged?, Nat.ne_zero_of_lt hdepth, Json.text,
          Json.text?]
    | _ => rfl
  fits := by
    intro value o ho
    unfold decode at ho
    split at ho
    · exact (nesting_toJson_of_named? ho).symm ▸ Nat.zero_le _
    · obtain ⟨hdepth, ho⟩ := (Option.ite_none_left_eq_some).mp ho
      split at ho
      · obtain ⟨type, _, rfl⟩ := Option.map_eq_some_iff.mp ho
        rw [toJson, Json.nesting_variant, Json.nesting_text]
        exact Nat.pos_of_ne_zero hdepth
      · obtain ⟨name, _, rfl⟩ := Option.map_eq_some_iff.mp ho
        rw [toJson, Json.nesting_variant, Json.nesting_text]
        exact Nat.pos_of_ne_zero hdepth
      · exact (nesting_toJson_of_named? ho).symm ▸ Nat.zero_le _
      · cases ho
    · cases ho

theorem toJson_ne_null (o : Operator) : o.toJson ≠ .null := by
  cases o <;> simp [toJson, Json.text, Json.variant]

theorem lawful_option (depth : Nat) :
    LawfulAt depth (Json.option toJson) (Json.nullable (decode depth)) :=
  (lawful depth).nullable toJson_ne_null

end Operator

/-! ## Expressions and calls -/

namespace Callee

theorem lawful_address {depth : Nat} :
    LawfulAt depth (Json.option fun word : UInt64 => .nat word.toNat)
      (Json.nullable Json.word64?) :=
  Json.lawful_word64.nullable (by simp [Json.nat])

/-- Callees are decoded as they were encoded. An address left out is spelled out as `null`. -/
theorem lawful (depth : Nat) : LawfulAt depth toJson (decode depth) := by
  cases depth with
  | zero => exact .zero (by simp [toJson]) fun _ => rfl
  | succ depth =>
      refine Json.lawful_record (by simp) (fun _ => rfl) ?_ ?_
      · intro c hdepth
        simp only [List.forall_mem_cons] at hdepth
        obtain ⟨hname, haddress, _⟩ := hdepth
        simp [Field.required, Field.withDefault, Json.lawful_text.reads hname,
          lawful_address.reads haddress]
      · intro fields c hc
        split at hc
        · obtain ⟨name, _, hc⟩ := Option.bind_eq_some_iff.mp hc
          obtain ⟨address, haddress, hc⟩ := Option.bind_eq_some_iff.mp hc
          obtain rfl := Option.some.inj hc
          simp only [List.forall_mem_cons, Json.nesting_text, List.not_mem_nil, false_implies,
            implies_true, and_true]
          exact ⟨Nat.zero_le _, lawful_address.fits_withDefault (by simp [Json.option]) haddress⟩
        · cases hc

theorem toJson_ne_null (c : Callee) : c.toJson ≠ .null := by
  simp [toJson, Json.record]

theorem lawful_option (depth : Nat) :
    LawfulAt depth (Json.option toJson) (Json.nullable (decode depth)) :=
  (lawful depth).nullable toJson_ne_null

end Callee

/-- Every expression is written as a variant. -/
theorem Expr.nesting_toJson_pos (e : Expr) : 0 < e.toJson.nesting := by
  cases e <;> simp [toJson]

/-- A call is decoded as it was encoded, where its expressions are. -/
theorem Call.lawful_decodeOf {depth : Nat} {expr : Json → Option Expr}
    {exprs : Json → Option (List Expr)} (hexpr : LawfulAt depth Expr.toJson expr)
    (hexprs : LawfulAt depth (Json.list Expr.toJson) exprs) :
    LawfulAt (depth + 1) Call.toJson (Call.decodeOf depth expr exprs) := by
  refine Json.lawful_record (by simp) (fun _ => rfl) ?_ ?_
  · intro c hdepth
    simp only [List.forall_mem_cons] at hdepth
    obtain ⟨hcallee, hcallsite, hargs, _⟩ := hdepth
    have hread := hexprs.reads hargs
    rw [Json.list] at hread
    simp [Field.required, Field.withDefault, (Callee.lawful_option depth).reads hcallee,
      hexpr.reads hcallsite, hread]
  · intro fields c hc
    split at hc
    · obtain ⟨callee, hcallee, hc⟩ := Option.bind_eq_some_iff.mp hc
      obtain ⟨callsite, hcallsite, hc⟩ := Option.bind_eq_some_iff.mp hc
      obtain ⟨args, hargs, hc⟩ := Option.bind_eq_some_iff.mp hc
      obtain rfl := Option.some.inj hc
      have hsite := hexpr.fits_required hcallsite
      -- the arguments that are left out are an array, which nests as deep as any call site does
      have hnone : (Json.list Expr.toJson []).nesting ≤ depth :=
        Nat.le_trans callsite.nesting_toJson_pos hsite
      simp only [List.forall_mem_cons, List.not_mem_nil, false_implies, implies_true, and_true]
      exact ⟨(Callee.lawful_option depth).fits_withDefault (by simp [Json.option]) hcallee, hsite,
        hexprs.fits_withDefault hnone hargs⟩
    · cases hc

namespace Expr

theorem toJsonAll_eq_map (es : List Expr) : toJsonAll es = es.map toJson := by
  induction es with
  | nil => rfl
  | cons e es ih => rw [toJsonAll, ih, List.map_cons]

theorem toJson_ne_null (e : Expr) : e.toJson ≠ .null := by
  cases e <;> simp [toJson, Json.variant]

/-- The operands and the arguments of an expression are decoded as an array. -/
theorem listOf_decode (depth : Nat) :
    (fun value : Json => match depth with
      | depth + 1 => value.items?.bind (·.mapM (decode depth))
      | 0 => none) = Json.listOf decode depth := by
  funext value
  cases depth <;> cases value <;> rfl

/-- The operator and the operands in a record. -/
def decodeOperation (depth : Nat) (body : Json) : Option (Operator × List Expr) :=
  (Json.fields? ["op", "operands"] body).bind fun
    | [o, operands] => do
      return (← o.required (Operator.decode depth), ← operands.required (Json.listOf decode depth))
    | _ => none

/-- An operator with operands is decoded from its record, two nestings below. -/
theorem decode_op (depth : Nat) (body : Json) :
    decode (depth + 2) (.variant "op" body) =
      (decodeOperation depth body).map fun e => op e.1 e.2 := by
  have hpair : ∀ (o : Option Operator) (operands : Option (List Expr)),
      (o.bind fun o => operands.bind fun operands => some (op o operands)) =
        (o.bind fun o => operands.bind fun operands => some (o, operands)).map
          fun e => op e.1 e.2 := by
    intro o operands
    cases o <;> cases operands <;> rfl
  rw [Json.variant, decode, decodeOperation, ← listOf_decode, Option.map_bind]
  refine congrArg (Option.bind _) (funext fun fields => ?_)
  rcases fields with _ | ⟨o, _ | ⟨operands, _ | _⟩⟩
  · rfl
  · rfl
  · exact hpair _ _
  · rfl

theorem decode_call (depth : Nat) (body : Json) :
    decode (depth + 2) (.variant "call" body) =
      (Call.decodeOf depth (decode depth) (Json.listOf decode depth) body).map Call.toExpr := by
  rw [Json.variant, decode, ← listOf_decode]
  cases Call.decodeOf depth (decode depth) _ body <;> rfl

theorem lawful_decodeOperation {depth : Nat}
    (hexprs : LawfulAt depth (Json.list toJson) (Json.listOf decode depth)) :
    LawfulAt (depth + 1)
      (fun e => .record [("op", e.1.toJson), ("operands", .list toJson e.2)])
      (decodeOperation depth) := by
  refine Json.lawful_record (by simp) (fun _ => rfl) ?_ ?_
  · intro e hdepth
    simp only [List.forall_mem_cons] at hdepth
    obtain ⟨ho, hoperands, _⟩ := hdepth
    simp [Field.required, (Operator.lawful depth).reads ho, hexprs.reads hoperands]
  · intro fields e he
    split at he
    · obtain ⟨o, ho, he⟩ := Option.bind_eq_some_iff.mp he
      obtain ⟨operands, hoperands, he⟩ := Option.bind_eq_some_iff.mp he
      obtain rfl := Option.some.inj he
      simp only [List.forall_mem_cons, List.not_mem_nil, false_implies, implies_true, and_true]
      exact ⟨(Operator.lawful depth).fits_required ho, hexprs.fits_required hoperands⟩
    · cases he

section Inside

variable {depth : Nat} (ih : ∀ inside < depth, LawfulAt inside toJson (decode inside))

include ih

theorem lawful_listOf_inside {inside : Nat} (hinside : inside < depth) :
    LawfulAt inside (Json.list toJson) (Json.listOf decode inside) :=
  .listOf fun deeper hdeeper => ih deeper (Nat.lt_trans hdeeper hinside)

/-- An expression is read back where the expressions inside it are. -/
theorem reads_of_inside {e : Expr} (hdepth : e.toJson.nesting ≤ depth) :
    decode depth e.toJson = some e := by
  obtain ⟨depth, rfl⟩ := Json.exists_inside e.nesting_toJson_pos hdepth
  cases e with
  | int value =>
      have hread := Json.lawful_int64.reads (a := value) (Nat.le_refl _)
      rw [toJson, Json.variant, decode, hread]
      rfl
  | ptr address =>
      have hread := Json.lawful_word64.reads (a := address) (Nat.le_refl _)
      rw [toJson, Json.variant, decode, hread]
      rfl
  | ident id =>
      have hread := Json.lawful_word32.reads (a := id.val) (Nat.le_refl _)
      rw [toJson, Json.variant, decode, IdentId.index, hread]
      rfl
  | predicate inner =>
      rw [toJson, Json.nesting_variant, Nat.add_le_add_iff_right] at hdepth
      rw [toJson, Json.variant, decode, (ih depth (Nat.lt_add_one _)).reads hdepth]
      rfl
  | op o operands =>
      rw [toJson, toJsonAll_eq_map, Json.nesting_variant, Nat.add_le_add_iff_right] at hdepth
      obtain ⟨inside, rfl⟩ := Json.exists_inside (Json.nesting_record_pos _) hdepth
      have hoperands := lawful_listOf_inside ih (show inside < inside + 2 by omega)
      have hread := (lawful_decodeOperation hoperands).reads (a := (o, operands)) hdepth
      rw [toJson, toJsonAll_eq_map, decode_op]
      exact congrArg (Option.map _) hread
  | call callee callsite args =>
      rw [toJson, toJsonAll_eq_map, Json.nesting_variant, Nat.add_le_add_iff_right] at hdepth
      obtain ⟨inside, rfl⟩ := Json.exists_inside (Json.nesting_record_pos _) hdepth
      have hargs := lawful_listOf_inside ih (show inside < inside + 2 by omega)
      have hread := (Call.lawful_decodeOf (ih inside (by omega)) hargs).reads
        (a := ⟨callee, callsite, args⟩) hdepth
      rw [toJson, toJsonAll_eq_map, decode_call]
      exact congrArg (Option.map _) hread

/-- What is decoded fits where the expressions inside it do. -/
theorem fits_of_inside {value : Json} {e : Expr} (h : decode depth value = some e) :
    e.toJson.nesting ≤ depth := by
  unfold decode at h
  split at h
  · obtain ⟨value, _, rfl⟩ := Option.map_eq_some_iff.mp h
    simp [toJson]
  · obtain ⟨address, _, rfl⟩ := Option.map_eq_some_iff.mp h
    simp [toJson]
  · obtain ⟨id, _, rfl⟩ := Option.map_eq_some_iff.mp h
    simp [toJson]
  · obtain ⟨inner, hinner, rfl⟩ := Option.map_eq_some_iff.mp h
    rw [toJson, Json.nesting_variant]
    exact Nat.succ_le_succ ((ih _ (Nat.lt_add_one _)).fits hinner)
  · next inside body =>
    have hop : decode (inside + 2) (.variant "op" body) = some e := by
      rw [Json.variant, decode]
      exact h
    rw [decode_op] at hop
    obtain ⟨⟨o, operands⟩, hoperation, rfl⟩ := Option.map_eq_some_iff.mp hop
    have hoperands := lawful_listOf_inside ih (show inside < inside + 2 by omega)
    rw [toJson, toJsonAll_eq_map, Json.nesting_variant]
    exact Nat.succ_le_succ ((lawful_decodeOperation hoperands).fits hoperation)
  · next inside body =>
    have hcall : decode (inside + 2) (.variant "call" body) = some e := by
      rw [Json.variant, decode]
      exact h
    rw [decode_call] at hcall
    obtain ⟨c, hc, rfl⟩ := Option.map_eq_some_iff.mp hcall
    have hargs := lawful_listOf_inside ih (show inside < inside + 2 by omega)
    rw [Call.toExpr, toJson, toJsonAll_eq_map, Json.nesting_variant]
    exact Nat.succ_le_succ ((Call.lawful_decodeOf (ih inside (by omega)) hargs).fits hc)
  · cases h

end Inside

/-- **Expressions are decoded as they were encoded.** -/
theorem lawful (depth : Nat) : LawfulAt depth toJson (decode depth) := by
  induction depth using Nat.strongRecOn with
  | ind depth ih => exact ⟨reads_of_inside ih, fits_of_inside ih⟩

end Expr

/-- Calls are decoded as they were encoded. -/
theorem Call.lawful (depth : Nat) : LawfulAt depth Call.toJson (Call.decode depth) := by
  cases depth with
  | zero => exact .zero (fun _ => Json.nesting_record_pos _) fun _ => rfl
  | succ depth =>
      exact Call.lawful_decodeOf (Expr.lawful depth) (.listOf fun inside _ => Expr.lawful inside)

end RoutineEmulator
