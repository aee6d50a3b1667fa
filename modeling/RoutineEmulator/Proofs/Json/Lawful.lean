import RoutineEmulator.Json.Decoding
/-!
Decoders that suit their encoders.

`Json.nesting` counts how deep arrays and objects lie in each other. A decoder suits an encoder
where it reads back what is written no deeper than it may go, and takes nothing that is written
deeper than that. The second half is what makes a document with fields left out decode again once
they are spelled out. Both halves pass from the parts of a format to `null`, arrays and records.
-/

namespace RoutineEmulator.Json

/-! ## Nesting -/

mutual

/-- How many arrays and objects lie in each other at most. -/
def nesting : Json → Nat
  | .arr items => nestingOfItems items + 1
  | .obj members => nestingOfMembers members + 1
  | _ => 0

/-- The nesting of the deepest item. -/
def nestingOfItems : List Json → Nat
  | [] => 0
  | item :: items => max (nesting item) (nestingOfItems items)

/-- The nesting of the deepest member. -/
def nestingOfMembers : List (Option String × Json) → Nat
  | [] => 0
  | (_, value) :: members => max (nesting value) (nestingOfMembers members)

end

theorem nesting_arr (items : List Json) : nesting (.arr items) = nestingOfItems items + 1 :=
  rfl

theorem nesting_obj (members : List (Option String × Json)) :
    nesting (.obj members) = nestingOfMembers members + 1 :=
  rfl

@[simp] theorem nesting_null : nesting .null = 0 :=
  rfl

@[simp] theorem nesting_bool (b : Bool) : nesting (.bool b) = 0 :=
  rfl

@[simp] theorem nesting_int (n : Int) : nesting (.int n) = 0 :=
  rfl

@[simp] theorem nesting_nat (n : Nat) : nesting (.nat n) = 0 :=
  nesting_int n

@[simp] theorem nesting_text (s : String) : nesting (.text s) = 0 :=
  rfl

/-- A variant nests its data once. -/
@[simp] theorem nesting_variant (tag : String) (body : Json) :
    (variant tag body).nesting = body.nesting + 1 := by
  simp [variant, nesting_obj, nestingOfMembers]

@[simp] theorem nesting_record_nil : (record []).nesting = 1 := by
  simp [record, nesting_obj, nestingOfMembers]

/-- A record nests its deepest member once. -/
@[simp] theorem nesting_record_cons (key : String) (value : Json)
    (members : List (String × Json)) : (record ((key, value) :: members)).nesting =
      max (value.nesting + 1) (record members).nesting := by
  simp [record, nesting_obj, nestingOfMembers, Nat.add_max_add_right]

/-- A record nests, even without members. -/
theorem nesting_record_pos (members : List (String × Json)) : 0 < (record members).nesting := by
  simp [record, nesting_obj]

theorem nestingOfItems_le {items : List Json} {depth : Nat} :
    nestingOfItems items ≤ depth ↔ ∀ item ∈ items, item.nesting ≤ depth := by
  induction items with
  | nil => simp [nestingOfItems]
  | cons item items ih => rw [nestingOfItems, Nat.max_le, ih, List.forall_mem_cons]

/-- An array fits where all its items fit one nesting below. -/
theorem nesting_arr_le {items : List Json} {depth : Nat} :
    (Json.arr items).nesting ≤ depth + 1 ↔ ∀ item ∈ items, item.nesting ≤ depth := by
  rw [nesting_arr, Nat.add_le_add_iff_right, nestingOfItems_le]

theorem nesting_arr_pos (items : List Json) : 0 < (Json.arr items).nesting :=
  Nat.succ_pos _

/-! ## Laws -/

/-- A decoder that may go so deep reads back what the encoder writes no deeper than that, and takes
nothing whose own encoding is deeper. -/
structure LawfulAt (depth : Nat) (encode : α → Json) (decode : Json → Option α) : Prop where
  reads : ∀ {a : α}, (encode a).nesting ≤ depth → decode (encode a) = some a
  fits : ∀ {value : Json} {a : α}, decode value = some a → (encode a).nesting ≤ depth

variable {depth : Nat}

/-- What nests goes inside something. -/
theorem exists_inside {nesting : Nat} (hpos : 0 < nesting) (hdepth : nesting ≤ depth) :
    ∃ inside, depth = inside + 1 :=
  Nat.exists_eq_add_one_of_ne_zero (Nat.ne_zero_of_lt (Nat.lt_of_lt_of_le hpos hdepth))

/-- Where nothing may nest, a decoder of arrays or objects takes nothing. -/
theorem LawfulAt.zero {encode : α → Json} {decode : Json → Option α}
    (hencode : ∀ a, 0 < (encode a).nesting) (hdecode : ∀ value, decode value = none) :
    LawfulAt 0 encode decode where
  reads := fun h => absurd h (Nat.not_le_of_lt (hencode _))
  fits := by
    intro value a ha
    rw [hdecode] at ha
    cases ha

/-! ## Scalars -/

/-- An encoding that never nests fits at every depth, so reading it back is all of the law. -/
theorem lawful_of_flat {encode : α → Json} {decode : Json → Option α}
    (hreads : ∀ a, decode (encode a) = some a) (hflat : ∀ a, (encode a).nesting = 0) :
    LawfulAt depth encode decode where
  reads := fun _ => hreads _
  fits := fun _ => (hflat _).symm ▸ Nat.zero_le _

theorem lawful_text : LawfulAt depth text text? :=
  lawful_of_flat (fun _ => rfl) nesting_text

theorem lawful_bool : LawfulAt depth .bool bool? :=
  lawful_of_flat (fun _ => rfl) nesting_bool

theorem nat?_nat (bits : Nat) {n : Nat} (h : n < 1 <<< bits) : nat? bits (.nat n) = some n := by
  simp [nat, nat?, h]

/-- A word is written as the number that it is, which is below the bound of its decoder. -/
theorem lawful_word32 : LawfulAt depth (fun word : UInt32 => .nat word.toNat) word32? :=
  lawful_of_flat (fun word => by simp [word32?, nat?_nat 32 word.toNat_lt]) (by simp)

theorem lawful_word64 : LawfulAt depth (fun word : UInt64 => .nat word.toNat) word64? :=
  lawful_of_flat (fun word => by simp [word64?, nat?_nat 64 word.toNat_lt]) (by simp)

/-- A signed word is written as the integer that it is, which lies between the bounds of its
decoder. -/
theorem lawful_int32 : LawfulAt depth (fun n : Int32 => .int n.toInt) int32? :=
  lawful_of_flat
    (fun n => by rw [int32?, if_pos ⟨n.minValue_le_toInt, n.toInt_le⟩, n.ofInt_toInt]) (by simp)

theorem lawful_int64 : LawfulAt depth (fun n : Int64 => .int n.toInt) int64? :=
  lawful_of_flat
    (fun n => by rw [int64?, if_pos ⟨n.minValue_le_toInt, n.toInt_le⟩, n.ofInt_toInt]) (by simp)

/-! ## `null` and arrays -/

/-- Leaving a value out as `null` keeps the law, if no value is written as `null`. -/
theorem LawfulAt.nullable {encode : α → Json} {decode : Json → Option α}
    (h : LawfulAt depth encode decode) (hnull : ∀ a, encode a ≠ .null) :
    LawfulAt depth (option encode) (Json.nullable decode) where
  reads := by
    intro a hdepth
    cases a with
    | none => rfl
    | some a =>
        have hread := h.reads hdepth
        unfold option Json.nullable
        split
        · next heq => exact absurd heq (hnull a)
        · rw [hread]
          rfl
  fits := by
    intro value a ha
    unfold Json.nullable at ha
    split at ha
    · obtain rfl := Option.some.inj ha
      simp [option]
    · obtain ⟨b, hb, rfl⟩ := Option.map_eq_some_iff.mp ha
      exact h.fits hb

theorem mapM_of_forall {f : α → Option β} {g : α → β} {items : List α}
    (h : ∀ a ∈ items, f a = some (g a)) : items.mapM f = some (items.map g) := by
  induction items with
  | nil => rfl
  | cons a items ih =>
      rw [List.mapM_cons, h a List.mem_cons_self, ih fun b hb => h b (List.mem_cons_of_mem _ hb)]
      rfl

theorem mapM_map_of_forall {encode : α → β} {decode : β → Option α} {items : List α}
    (h : ∀ a ∈ items, decode (encode a) = some a) :
    (items.map encode).mapM decode = some items := by
  rw [List.mapM_map]
  exact (mapM_of_forall (g := id) h).trans (congrArg some (List.map_id items))

/-- Every item of a list that is decoded was decoded from some value. -/
theorem exists_of_mapM {decode : Json → Option α} {values : List Json} {items : List α}
    (h : values.mapM decode = some items) : ∀ a ∈ items, ∃ value, decode value = some a := by
  induction values generalizing items with
  | nil =>
      obtain rfl := Option.some.inj h
      simp
  | cons value values ih =>
      rw [List.mapM_cons] at h
      obtain ⟨a, ha, h⟩ := Option.bind_eq_some_iff.mp h
      obtain ⟨rest, hrest, h⟩ := Option.bind_eq_some_iff.mp h
      obtain rfl := Option.some.inj h
      intro b hb
      rcases List.mem_cons.mp hb with rfl | hb
      · exact ⟨value, ha⟩
      · exact ih hrest b hb

/-- Arrays are lawful where their items are at every smaller depth. -/
theorem LawfulAt.listOf {encode : α → Json} {decode : Nat → Json → Option α}
    (h : ∀ inside < depth, LawfulAt inside encode (decode inside)) :
    LawfulAt depth (list encode) (Json.listOf decode depth) := by
  cases depth with
  | zero => exact .zero (fun _ => nesting_arr_pos _) fun _ => rfl
  | succ inside =>
      refine ⟨?_, ?_⟩
      · intro items hdepth
        have hitems := nesting_arr_le.mp hdepth
        exact mapM_map_of_forall fun a ha =>
          (h inside (Nat.lt_add_one _)).reads (hitems _ (List.mem_map_of_mem ha))
      · intro value items hitems
        cases value with
        | arr values =>
            refine nesting_arr_le.mpr ?_
            intro item hitem
            obtain ⟨a, ha, rfl⟩ := List.mem_map.mp hitem
            obtain ⟨value, hvalue⟩ := exists_of_mapM hitems a ha
            exact (h inside (Nat.lt_add_one _)).fits hvalue
        | _ => cases hitems

/-! ## Records -/

theorem filter_key {members : List (String × Json)} (h : (members.map (·.1)).Nodup)
    {member : String × Json} (hmember : member ∈ members) :
    members.filter (·.1 == member.1) = [member] := by
  induction members with
  | nil => cases hmember
  | cons first members ih =>
      simp only [List.map_cons, List.nodup_cons, List.mem_map, not_exists, not_and] at h
      obtain ⟨hfirst, hnodup⟩ := h
      rcases List.mem_cons.mp hmember with rfl | hmember
      · have hnone : members.filter (·.1 == member.1) = [] := by
          simpa [List.filter_eq_nil_iff] using hfirst
        rw [List.filter_cons, if_pos (by simp), hnone]
      · have hne : first.1 ≠ member.1 := fun heq => hfirst member hmember heq.symm
        rw [List.filter_cons, if_neg (by simpa using hne), ih hnodup hmember]

/-- An object that names all its fields gives them all. -/
theorem fields?_record (members : List (String × Json)) (h : (members.map (·.1)).Nodup) :
    fields? (members.map (·.1)) (record members) =
      some (members.map fun member => .given member.2) := by
  have hmembers : (members.map fun member => (some member.1, member.2)).mapM
      (fun member => member.1.map (·, member.2)) = some members :=
    mapM_map_of_forall fun _ _ => rfl
  have hfields : (members.map (·.1)).mapM (member? members) =
      some (members.map fun member => .given member.2) := by
    rw [List.mapM_map]
    refine mapM_of_forall ?_
    intro member hmember
    simp [member?, filter_key h hmember]
  unfold fields? record
  dsimp only
  rw [hmembers]
  exact hfields

/-- A record fits where all its members fit one nesting below. -/
theorem nesting_record_le {members : List (String × Json)} :
    (record members).nesting ≤ depth + 1 ↔ ∀ member ∈ members, member.2.nesting ≤ depth := by
  induction members with
  | nil => simp
  | cons member members ih =>
      rw [nesting_record_cons, Nat.max_le, ih, List.forall_mem_cons, Nat.add_le_add_iff_right]

/-- A variant of a sum whose data is a record. -/
theorem nesting_variant_record_le {tag : String} {members : List (String × Json)} :
    (variant tag (record members)).nesting ≤ depth + 2 ↔
      ∀ member ∈ members, member.2.nesting ≤ depth := by
  rw [nesting_variant, Nat.add_le_add_iff_right, nesting_record_le]

/-- A record whose members are read and fit one nesting below it. -/
theorem lawful_record {names : List String} {members : α → List (String × Json)}
    {build : List Field → Option α} (hnodup : names.Nodup)
    (hnames : ∀ a, (members a).map (·.1) = names)
    (hreads : ∀ a, (∀ member ∈ members a, member.2.nesting ≤ depth) →
      build ((members a).map fun member => .given member.2) = some a)
    (hfits : ∀ fields a, build fields = some a → ∀ member ∈ members a, member.2.nesting ≤ depth) :
    LawfulAt (depth + 1) (fun a => record (members a)) fun value =>
      (fields? names value).bind build where
  reads := by
    intro a hdepth
    have hfields := fields?_record (members a) ((hnames a).symm ▸ hnodup)
    rw [hnames a] at hfields
    rw [hfields]
    exact hreads a (nesting_record_le.mp hdepth)
  fits := by
    intro value a ha
    obtain ⟨fields, _, hbuild⟩ := Option.bind_eq_some_iff.mp ha
    exact nesting_record_le.mpr (hfits fields a hbuild)

section Fields

variable {encode : α → Json} {decode : Json → Option α} {field : Field} {fallback a : α}

/-- A field that has to be given fits as what is given for it. -/
theorem LawfulAt.fits_required (h : LawfulAt depth encode decode)
    (ha : field.required decode = some a) : (encode a).nesting ≤ depth := by
  cases field with
  | given value => exact h.fits ha
  | absent => cases ha
  | cut => cases ha

/-- A field that may be left out fits if its default does. -/
theorem LawfulAt.fits_withDefault (h : LawfulAt depth encode decode)
    (hfallback : (encode fallback).nesting ≤ depth)
    (ha : field.withDefault fallback decode = some a) : (encode a).nesting ≤ depth := by
  cases field with
  | given value => exact h.fits ha
  | absent =>
      obtain rfl := Option.some.inj ha
      exact hfallback
  | cut =>
      obtain rfl := Option.some.inj ha
      exact hfallback

end Fields

end RoutineEmulator.Json
