import RoutineEmulator.Proofs.Json.Reading
import RoutineEmulator.Proofs.Routine.ExprFormat
import RoutineEmulator.Proofs.Routine.Validity
/-!
The JSON format of routines is faithful.

Every decoder of the format suits its encoder in the sense of `Json.LawfulAt`: at any depth it reads
back what is written no deeper, and takes nothing whose spelled-out form is deeper. A field that may
be left out is spelled out as a scalar or as an empty array. The array needs one nesting more, and
wherever it may be left out, a sibling that may not is an array or an object itself. As the text of
every value reads back as the value, decoding the text of a routine gives the routine.
-/

namespace RoutineEmulator

open Json (Field LawfulAt)

/-! ## The parts of statements -/

namespace LoopKind

@[simp] theorem nesting_toJson (kind : LoopKind) : kind.toJson.nesting = 0 := by
  cases kind <;> simp [toJson]

theorem lawful {depth : Nat} : LawfulAt depth toJson (decode depth) where
  reads := by
    intro kind _
    cases kind <;> rfl
  fits := fun _ => (nesting_toJson _).symm ▸ Nat.zero_le _

end LoopKind

namespace StmtId

@[simp] theorem nesting_toJson (id : StmtId) : id.toJson.nesting = 0 :=
  Json.nesting_nat _

@[simp] theorem decode_toJson (id : StmtId) : decode id.toJson = some id := by
  have hread := Json.lawful_word32.reads (a := id.val) (Nat.le_refl _)
  rw [toJson, index, decode, hread]
  rfl

theorem lawful {depth : Nat} : LawfulAt depth toJson decode :=
  Json.lawful_of_flat decode_toJson nesting_toJson

@[simp] theorem nesting_option (id : Option StmtId) : (Json.option toJson id).nesting = 0 := by
  cases id <;> simp [Json.option]

@[simp] theorem decodeOption_toJson (id : Option StmtId) :
    decodeOption (.given (Json.option toJson id)) = some id :=
  (lawful.nullable (by simp [toJson, Json.nat])).reads (Nat.le_refl _)

end StmtId

/-- A branch is decoded as it was encoded, since its test is. -/
theorem Branch.lawful (depth : Nat) : LawfulAt depth Branch.toJson (Branch.decode depth) := by
  cases depth with
  | zero => exact .zero (fun _ => Json.nesting_record_pos _) fun _ => rfl
  | succ depth =>
      refine Json.lawful_record (by simp) (fun _ => rfl) ?_ ?_
      · intro b hdepth
        simp only [List.forall_mem_cons] at hdepth
        obtain ⟨hpredicate, _⟩ := hdepth
        simp [Field.required, (Expr.lawful depth).reads hpredicate]
      · intro fields b hb
        split at hb
        · obtain ⟨predicate, hpredicate, hb⟩ := Option.bind_eq_some_iff.mp hb
          obtain ⟨block, _, hb⟩ := Option.bind_eq_some_iff.mp hb
          obtain rfl := Option.some.inj hb
          simpa using (Expr.lawful depth).fits_required hpredicate
        · cases hb

/-- A case of a `switch` is decoded as it was encoded. -/
theorem SwitchCase.lawful (depth : Nat) :
    LawfulAt depth SwitchCase.toJson (SwitchCase.decode depth) := by
  have hvalues : ∀ depth, LawfulAt depth (Json.list fun n : Int64 => .int n.toInt)
      (Json.listOf (fun _ => Json.int64?) depth) :=
    fun _ => .listOf fun _ _ => Json.lawful_int64
  cases depth with
  | zero => exact .zero (fun _ => Json.nesting_record_pos _) fun _ => rfl
  | succ depth =>
      refine Json.lawful_record (by simp) (fun _ => rfl) ?_ ?_
      · intro c hdepth
        simp only [List.forall_mem_cons] at hdepth
        obtain ⟨hlist, _⟩ := hdepth
        simp [Field.required, (hvalues depth).reads hlist]
      · intro fields c hc
        split at hc
        · obtain ⟨values, hlist, hc⟩ := Option.bind_eq_some_iff.mp hc
          obtain ⟨block, _, hc⟩ := Option.bind_eq_some_iff.mp hc
          obtain rfl := Option.some.inj hc
          simpa using (hvalues depth).fits_required hlist
        · cases hc

/-! ## Statements -/

namespace Stmt

theorem lawful_value (depth : Nat) :
    LawfulAt depth (Json.option Expr.toJson) (Json.nullable (Expr.decode depth)) :=
  (Expr.lawful depth).nullable Expr.toJson_ne_null

theorem lawful_branches (depth : Nat) :
    LawfulAt depth (Json.list Branch.toJson) (Json.listOf Branch.decode depth) :=
  .listOf fun inside _ => Branch.lawful inside

theorem lawful_cases (depth : Nat) :
    LawfulAt depth (Json.list SwitchCase.toJson) (Json.listOf SwitchCase.decode depth) :=
  .listOf fun inside _ => SwitchCase.lawful inside

theorem lawful_stmts (depth : Nat) :
    LawfulAt depth (Json.list StmtId.toJson) (Json.listOf (fun _ => StmtId.decode) depth) :=
  .listOf fun _ _ => StmtId.lawful

/-- Statements with a record are decoded from its fields, two nestings below: one of the variant and
one of the record. -/
theorem decode_record {kind : String} (hkind : kind ≠ "return" ∧ kind ≠ "call") (depth : Nat)
    (body : Json) : decode (depth + 2) (.variant kind body) =
      (Json.fields? (fieldNames kind) body).bind (ofFields depth kind) := by
  rw [Json.variant, decode]
  · rfl
  · exact hkind.1
  · exact hkind.2

/-- A statement with a record is read back if its fields are, at any depth where they fit. -/
theorem decode_of_fields {kind : String} (hkind : kind ≠ "return" ∧ kind ≠ "call")
    {members : List (String × Json)} (hnodup : (fieldNames kind).Nodup)
    (hnames : members.map (·.1) = fieldNames kind) {s : Stmt} {depth : Nat}
    (hfields : ∀ inside, (∀ member ∈ members, member.2.nesting ≤ inside) →
      ofFields inside kind (members.map fun member => .given member.2) = some s)
    (hdepth : (Json.variant kind (.record members)).nesting ≤ depth) :
    decode depth (.variant kind (.record members)) = some s := by
  obtain ⟨inside, rfl⟩ : ∃ inside, depth = inside + 2 := by
    have hpos := Json.nesting_record_pos members
    rw [Json.nesting_variant] at hdepth
    exact ⟨depth - 2, by omega⟩
  have hgiven := Json.fields?_record members (hnames ▸ hnodup)
  rw [hnames] at hgiven
  rw [decode_record hkind, hgiven]
  exact hfields inside (Json.nesting_variant_record_le.mp hdepth)

/-- A statement is read back at every depth where it fits. -/
theorem decode_toJson {depth : Nat} {s : Stmt} (h : s.toJson.nesting ≤ depth) :
    decode depth s.toJson = some s := by
  cases s with
  | assign lhs rhs compound declare =>
      refine decode_of_fields (by decide) (by decide) rfl ?_ h
      intro inside hinside
      simp only [List.forall_mem_cons] at hinside
      obtain ⟨hlhs, hrhs, hcompound, hdeclare, _⟩ := hinside
      simp [ofFields, Field.required, Field.withDefault, (Expr.lawful inside).reads hlhs,
        (Expr.lawful inside).reads hrhs, (Operator.lawful_option inside).reads hcompound,
        Json.lawful_bool.reads hdeclare]
  | ifElse branches default =>
      refine decode_of_fields (by decide) (by decide) rfl ?_ h
      intro inside hinside
      simp only [List.forall_mem_cons] at hinside
      obtain ⟨hbranches, _⟩ := hinside
      simp [ofFields, Field.required, (lawful_branches inside).reads hbranches]
  | loop kind predicate body =>
      refine decode_of_fields (by decide) (by decide) rfl ?_ h
      intro inside hinside
      simp only [List.forall_mem_cons] at hinside
      obtain ⟨hkind, hpredicate, _⟩ := hinside
      simp [ofFields, Field.required, Field.withDefault, LoopKind.lawful.reads hkind,
        (Expr.lawful inside).reads hpredicate]
  | label name =>
      refine decode_of_fields (by decide) (by decide) rfl ?_ h
      intro inside hinside
      simp only [List.forall_mem_cons] at hinside
      simp [ofFields, Field.required, Json.lawful_text.reads hinside.1]
  | ret value =>
      rw [toJson, Json.nesting_variant] at h
      obtain ⟨inside, rfl⟩ := Json.exists_inside (Nat.succ_pos _) h
      rw [Nat.add_le_add_iff_right] at h
      rw [toJson, Json.variant, decode, (lawful_value inside).reads h]
      rfl
  | jumpFar target =>
      refine decode_of_fields (by decide) (by decide) rfl ?_ h
      intro inside hinside
      simp only [List.forall_mem_cons] at hinside
      simp [ofFields, Field.required, (Expr.lawful inside).reads hinside.1]
  | call c =>
      rw [toJson, Json.nesting_variant] at h
      obtain ⟨inside, rfl⟩ := Json.exists_inside (Nat.succ_pos _) h
      rw [Nat.add_le_add_iff_right] at h
      rw [toJson, Json.variant, decode, (Call.lawful inside).reads h]
      rfl
  | decl id =>
      refine decode_of_fields (by decide) (by decide) rfl ?_ h
      intro inside hinside
      simp only [List.forall_mem_cons] at hinside
      simp [ofFields, Field.required, IdentId.index, Json.lawful_word32.reads hinside.1]
  | block stmts =>
      refine decode_of_fields (by decide) (by decide) rfl ?_ h
      intro inside hinside
      simp only [List.forall_mem_cons] at hinside
      simp [ofFields, Field.required, (lawful_stmts inside).reads hinside.1]
  | switch value cases default =>
      refine decode_of_fields (by decide) (by decide) rfl ?_ h
      intro inside hinside
      simp only [List.forall_mem_cons] at hinside
      obtain ⟨hvalue, hcases, _⟩ := hinside
      simp [ofFields, Field.required, (Expr.lawful inside).reads hvalue,
        (lawful_cases inside).reads hcases]
  | goto target | breakLoop target | continueLoop target =>
      refine decode_of_fields (by decide) (by decide) rfl ?_ h
      intro inside _
      simp [ofFields, Field.required]

/-- What is decoded from the fields of a record fits one nesting below it. -/
theorem nesting_of_ofFields {depth : Nat} {kind : String} {fields : List Field} {s : Stmt}
    (h : ofFields depth kind fields = some s) : s.toJson.nesting ≤ depth + 2 := by
  unfold ofFields at h
  split at h <;>
    simp only [Option.bind_eq_bind, Option.pure_def, Option.bind_eq_some_iff, Option.some.injEq,
      reduceCtorEq] at h
  · -- assignments
    obtain ⟨lhs, hlhs, rhs, hrhs, compound, hcompound, declare, _, rfl⟩ := h
    have hfits := (Operator.lawful_option depth).fits_withDefault (by simp [Json.option]) hcompound
    refine Json.nesting_variant_record_le.mpr ?_
    simp [(Expr.lawful depth).fits_required hlhs, (Expr.lawful depth).fits_required hrhs, hfits]
  · -- `if`
    obtain ⟨branches, hbranches, default, _, rfl⟩ := h
    refine Json.nesting_variant_record_le.mpr ?_
    simp [(lawful_branches depth).fits_required hbranches]
  · -- loops
    obtain ⟨kind, _, predicate, hpredicate, body, _, rfl⟩ := h
    refine Json.nesting_variant_record_le.mpr ?_
    simp [(Expr.lawful depth).fits_required hpredicate]
  · obtain ⟨target, _, rfl⟩ := h
    simp [toJson]
  · obtain ⟨name, _, rfl⟩ := h
    simp [toJson]
  · -- far jumps
    obtain ⟨target, htarget, rfl⟩ := h
    refine Json.nesting_variant_record_le.mpr ?_
    simp [(Expr.lawful depth).fits_required htarget]
  · obtain ⟨target, _, rfl⟩ := h
    simp [toJson]
  · obtain ⟨target, _, rfl⟩ := h
    simp [toJson]
  · obtain ⟨id, _, rfl⟩ := h
    simp [toJson]
  · -- blocks
    obtain ⟨stmts, hstmts, rfl⟩ := h
    refine Json.nesting_variant_record_le.mpr ?_
    simp [(lawful_stmts depth).fits_required hstmts]
  · -- switches
    obtain ⟨value, hvalue, cases, hcases, default, _, rfl⟩ := h
    refine Json.nesting_variant_record_le.mpr ?_
    simp [(Expr.lawful depth).fits_required hvalue, (lawful_cases depth).fits_required hcases]

/-- **Statements are decoded as they were encoded.** -/
theorem lawful (depth : Nat) : LawfulAt depth toJson (decode depth) where
  reads := decode_toJson
  fits := by
    intro value s hs
    unfold decode at hs
    split at hs
    · next inside body =>
      obtain ⟨value, hvalue, rfl⟩ := Option.map_eq_some_iff.mp hs
      rw [toJson, Json.nesting_variant]
      exact Nat.succ_le_succ ((lawful_value inside).fits hvalue)
    · next inside body =>
      obtain ⟨c, hc, rfl⟩ := Option.map_eq_some_iff.mp hs
      rw [toJson, Json.nesting_variant]
      exact Nat.succ_le_succ ((Call.lawful inside).fits hc)
    · obtain ⟨fields, _, hs⟩ := Option.bind_eq_some_iff.mp hs
      exact nesting_of_ofFields hs
    · cases hs

end Stmt

/-! ## Identifiers and drafts -/

namespace StorageClass

@[simp] theorem nesting_toJson (storage : StorageClass) : storage.toJson.nesting = 0 := by
  cases storage <;> simp [toJson]

theorem lawful {depth : Nat} : LawfulAt depth toJson (decode depth) where
  reads := by
    intro storage _
    cases storage <;> rfl
  fits := fun _ => (nesting_toJson _).symm ▸ Nat.zero_le _

end StorageClass

/-- An identifier is decoded as it was encoded; all its fields are scalars. -/
theorem Identifier.lawful (depth : Nat) :
    LawfulAt depth Identifier.toJson (Identifier.decode depth) := by
  cases depth with
  | zero => exact .zero (fun _ => Json.nesting_record_pos _) fun _ => rfl
  | succ depth =>
      refine Json.lawful_record (by simp) (fun _ => rfl) ?_ ?_
      · intro i hdepth
        simp only [List.forall_mem_cons] at hdepth
        obtain ⟨hid, hname, hstorage, htype, haddress, _⟩ := hdepth
        simp [Field.required, Field.withDefault, Json.lawful_int32.reads hid,
          Json.lawful_text.reads hname, StorageClass.lawful.reads hstorage,
          Json.lawful_text.reads htype, Json.lawful_int64.reads haddress]
      · intro fields i _
        simp

/-- A draft is decoded as it was encoded, whether or not it is coherent. -/
theorem Draft.lawful (depth : Nat) : LawfulAt depth Draft.toJson (Draft.decode depth) := by
  have hstmts : ∀ depth, LawfulAt depth (Json.list Stmt.toJson) (Json.listOf Stmt.decode depth) :=
    fun _ => .listOf fun inside _ => Stmt.lawful inside
  have hidents : ∀ depth,
      LawfulAt depth (Json.list Identifier.toJson) (Json.listOf Identifier.decode depth) :=
    fun _ => .listOf fun inside _ => Identifier.lawful inside
  cases depth with
  | zero => exact .zero (fun _ => Json.nesting_record_pos _) fun _ => rfl
  | succ depth =>
      refine Json.lawful_record (by simp) (fun _ => rfl) ?_ ?_
      · intro r hdepth
        simp only [List.forall_mem_cons] at hdepth
        obtain ⟨hname, haddress, hlist, htable, _⟩ := hdepth
        simp [Field.required, Field.withDefault, Json.lawful_text.reads hname,
          Json.lawful_word64.reads haddress, (hstmts depth).reads hlist,
          (hidents depth).reads htable]
      · intro fields r hr
        split at hr
        · obtain ⟨name, _, hr⟩ := Option.bind_eq_some_iff.mp hr
          obtain ⟨address, _, hr⟩ := Option.bind_eq_some_iff.mp hr
          obtain ⟨stmts, hlist, hr⟩ := Option.bind_eq_some_iff.mp hr
          obtain ⟨idents, htable, hr⟩ := Option.bind_eq_some_iff.mp hr
          obtain ⟨body, _, hr⟩ := Option.bind_eq_some_iff.mp hr
          obtain rfl := Option.some.inj hr
          have hdeep := (hstmts depth).fits_required hlist
          -- an identifier table that is left out is an array, as the statements are
          have hnone : (Json.list Identifier.toJson []).nesting ≤ depth :=
            Nat.le_trans (Json.nesting_arr_pos _) hdeep
          simp [hdeep, (hidents depth).fits_withDefault hnone htable]
        · cases hr

/-! ## Documents -/

/-- A routine that nests no deeper than a document may is decoded from its text. -/
theorem Routine.decodeText?_of_nesting {r : Routine}
    (h : r.toDraft.toJson.nesting ≤ Json.nestingLimit) :
    Routine.decodeText? r.encode = some (.ok r) := by
  have hdecode := (Draft.lawful Json.nestingLimit).reads h
  simp [decodeText?, Json.decodeText?, encode, Json.read?_compact, hdecode, ofDraft_toDraft]

/-- **The format of routines is faithful.** A routine that nests no deeper than a document may is
decoded from its text, and a routine that was decoded from any document is decoded from its text
again, its left-out fields spelled out. -/
theorem Routine.decodeText?_encode :
    (∀ r : Routine, r.toDraft.toJson.nesting ≤ Json.nestingLimit →
      Routine.decodeText? r.encode = some (.ok r)) ∧
    (∀ (document : String) (r : Routine), Routine.decodeText? document = some (.ok r) →
      Routine.decodeText? r.encode = some (.ok r)) := by
  refine ⟨fun r => decodeText?_of_nesting, ?_⟩
  intro document r h
  obtain ⟨draft, hdraft, hr⟩ := Option.map_eq_some_iff.mp h
  obtain ⟨value, _, hvalue⟩ := Option.bind_eq_some_iff.mp hdraft
  obtain rfl := toDraft_of_ofDraft hr
  exact decodeText?_of_nesting ((Draft.lawful Json.nestingLimit).fits hvalue)

/-- A routine whose texts need escapes. -/
def escapedDraft : Draft where
  name := "sub \"a\"\n"
  address := 0xffffffffffffffff
  body := ⟨0⟩
  idents := #[{ name := "é\t", storage := .register, type := "int", id := -1 }]
  stmts := #[.block [⟨1⟩], .ret (some (.op (.custom "\\") [.int (-1), .ident ⟨0⟩]))]

def escapedRoutine : Routine where
  toDraft := escapedDraft
  valid := Draft.check_eq_ok_iff.mpr ⟨by decide, by decide, by decide, by decide⟩

def sparseDraft : Draft where
  name := "sparse"
  address := 0x1000
  body := ⟨0⟩
  stmts := #[.block [⟨1⟩], .breakLoop none]

def sparseRoutine : Routine where
  toDraft := sparseDraft
  valid := Draft.check_eq_ok_iff.mpr ⟨by decide, by decide, by decide, by decide⟩

/-- A document of `sparseRoutine` that leaves out the identifier table and the label. -/
def sparseDocument : Json :=
  .record
    [("name", .text "sparse"), ("address", .nat 0x1000),
     ("stmts", .arr [.variant "block" (.record [("stmts", .arr [.nat 1])]),
       .variant "break" (.record [])]),
     ("body", .nat 0)]

/-- A routine with escapes, and one whose document leaves fields out. -/
theorem Routine.decodeText?_encode_escaped_and_sparse :
    Routine.decodeText? escapedRoutine.encode = some (.ok escapedRoutine) ∧
      Routine.decodeText? sparseDocument.compact = some (.ok sparseRoutine) ∧
      Routine.decodeText? sparseRoutine.encode = some (.ok sparseRoutine) := by
  have hsparse : Routine.decodeText? sparseDocument.compact = some (.ok sparseRoutine) := by
    have hdecode : Draft.decode Json.nestingLimit sparseDocument = some sparseRoutine.toDraft := rfl
    simp [decodeText?, Json.decodeText?, Json.read?_compact, hdecode, ofDraft_toDraft]
  exact ⟨decodeText?_encode.1 escapedRoutine (by decide), hsparse,
    decodeText?_encode.2 _ sparseRoutine hsparse⟩

end RoutineEmulator
