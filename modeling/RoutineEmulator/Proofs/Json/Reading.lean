import RoutineEmulator.Json.Reader
import RoutineEmulator.Json.Writer
/-!
Reading what was written.

Reading the text of a value on one line gives the value back. Each reader is described by what it
does on an input that a text of its kind opens: it takes that text and leaves what follows. Only a
number needs to know what follows, since digits do not tell where they end.
-/

namespace RoutineEmulator.Json

/-! ## The text of a value -/

mutual

/-- The text of a value on one line. -/
def chars : Json → List Char
  | .arr (item :: items) => '[' :: (chars item ++ itemsChars items)
  | .obj ((key, value) :: members) =>
    '{' :: (quoted key ++ ':' :: (chars value ++ membersChars members))
  | value => scalar value

/-- The text of the items after the first one, with the closing bracket. -/
def itemsChars : List Json → List Char
  | [] => [']']
  | item :: items => ',' :: (chars item ++ itemsChars items)

/-- The text of the members after the first one, with the closing brace. -/
def membersChars : List (Option String × Json) → List Char
  | [] => ['}']
  | (key, value) :: members =>
    ',' :: (quoted key ++ ':' :: (chars value ++ membersChars members))

end

mutual

/-- The writer pushes the text of a value, its last character first. -/
theorem pushValue_eq (done : List Char) :
    ∀ value : Json, pushValue done value = (chars value).reverse ++ done
  | .arr (item :: items) => by
      simp [pushValue, chars, pushValue_eq _ item, pushItems_eq _ items]
  | .obj ((key, value) :: members) => by
      simp [pushValue, chars, pushValue_eq _ value, pushMembers_eq _ members]
  | .null | .bool _ | .int _ | .decimal | .str _ | .arr [] | .obj [] => rfl

theorem pushItems_eq (done : List Char) :
    ∀ items : List Json, pushItems done items = (itemsChars items).reverse ++ done
  | [] => rfl
  | item :: items => by
      simp [pushItems, itemsChars, pushValue_eq _ item, pushItems_eq _ items]

theorem pushMembers_eq (done : List Char) : ∀ members : List (Option String × Json),
    pushMembers done members = (membersChars members).reverse ++ done
  | [] => rfl
  | (key, value) :: members => by
      simp [pushMembers, membersChars, pushValue_eq _ value, pushMembers_eq _ members]

end

theorem toList_compact (value : Json) : value.compact.toList = chars value := by
  simp [compact, pushValue_eq]

/-! ## Texts -/

theorem hexDigit?_digitChar : ∀ d < 16, Text.hexDigit? (Nat.digitChar d) = some d := by
  decide

/-- The escape of a control character reads as the character. -/
theorem readEscape_control {c : Char} (hc : c.toNat < 0x20) (rest : List Char) :
    readEscape ('u' :: '0' :: '0' :: Nat.digitChar (c.toNat / 16) ::
      Nat.digitChar (c.toNat % 16) :: rest) = some (some c, rest) := by
  have hhigh := hexDigit?_digitChar (c.toNat / 16) (by omega)
  have hlow := hexDigit?_digitChar (c.toNat % 16) (by omega)
  have hunit : readUnit ('0' :: '0' :: Nat.digitChar (c.toNat / 16) ::
      Nat.digitChar (c.toNat % 16) :: rest) = some (c.toNat, rest) := by
    have hzero : Text.hexDigit? '0' = some 0 := rfl
    simp only [readUnit, hzero, hhigh, hlow, Option.bind_eq_bind, Option.bind_some, Nat.zero_mul,
      Nat.zero_add, Nat.div_add_mod']
  have hwhole : isLowSurrogate c.toNat = false ∧ isHighSurrogate c.toNat = false := by
    simp only [isLowSurrogate, isHighSurrogate, Bool.and_eq_false_iff, decide_eq_false_iff_not]
    omega
  simp [readEscape, hunit, hwhole, Char.ofNat_toNat]

/-- Reading the written form of a character gives the character. -/
theorem readText_escaped (fuel : Nat) (done : List Char) (whole : Bool) (c : Char)
    (rest : List Char) :
    readText (fuel + 1) done whole (escaped c ++ rest) = readText fuel (c :: done) whole rest := by
  by_cases hnamed : c ∈ ['"', '\\', '\x08', '\x0c', '\n', '\r', '\t']
  · -- the short escapes
    simp only [List.mem_cons, List.not_mem_nil, or_false] at hnamed
    rcases hnamed with rfl | rfl | rfl | rfl | rfl | rfl | rfl <;> rfl
  simp only [List.mem_cons, List.not_mem_nil, or_false, not_or] at hnamed
  by_cases hcontrol : c.toNat < 0x20
  · have hescaped : escaped c = ['\\', 'u', '0', '0', Nat.digitChar (c.toNat / 16),
        Nat.digitChar (c.toNat % 16)] := by
      simp [escaped, hnamed, hcontrol]
    rw [hescaped]
    simp only [List.cons_append, List.nil_append, readText]
    rw [readEscape_control hcontrol]
    rfl
  · have hescaped : escaped c = [c] := by
      simp [escaped, hnamed, hcontrol]
    simp [hescaped, readText, hnamed, hcontrol]

theorem length_escaped_pos (c : Char) : 0 < (escaped c).length := by
  grind [escaped]

/-- Reading the rest of a written text gives its characters. -/
theorem readText_flatMap (cs : List Char) {fuel : Nat} (done : List Char) (rest : List Char)
    (h : (cs.flatMap escaped).length < fuel) :
    readText fuel done true (cs.flatMap escaped ++ '"' :: rest) =
      some (some (String.ofList (done.reverse ++ cs)), rest) := by
  induction cs generalizing fuel done with
  | nil =>
      cases fuel with
      | zero => cases h
      | succ fuel => simp [readText]
  | cons c cs ih =>
      have hpos := length_escaped_pos c
      rw [List.flatMap_cons, List.length_append] at h
      cases fuel with
      | zero => cases h
      | succ fuel =>
          rw [List.flatMap_cons, List.append_assoc, readText_escaped, ih (c :: done) (by omega)]
          simp

/-- Reading the rest of a quoted text, behind its opening quote. -/
theorem readText_quoted (text : Option String) {fuel : Nat} (rest : List Char)
    (h : (quoted text).length ≤ fuel) :
    readText fuel [] true ((quoted text).tail ++ rest) = some (text, rest) := by
  cases text with
  | none =>
      obtain ⟨fuel, rfl⟩ : ∃ left, fuel = left + 2 := ⟨fuel - 2, by simp [quoted] at h; omega⟩
      rfl
  | some s =>
      have hlength : (s.toList.flatMap escaped).length < fuel := by
        simp only [quoted, List.length_cons, List.length_append, List.length_nil] at h
        omega
      simpa [quoted] using readText_flatMap s.toList [] rest hlength

theorem quoted_eq_cons (text : Option String) : quoted text = '"' :: (quoted text).tail := by
  cases text <;> rfl

/-! ## Numbers -/

/-- What may follow a value: nothing, or what ends an item or a member. -/
def Closes : List Char → Prop
  | [] => True
  | c :: _ => c = ',' ∨ c = ']' ∨ c = '}'

theorem Closes.not_isDigit {c : Char} {rest : List Char} (h : Closes (c :: rest)) :
    c.isDigit = false := by
  rcases h with rfl | rfl | rfl <;> rfl

theorem readDigits_append {digits rest : List Char} (hdigits : ∀ c ∈ digits, c.isDigit)
    (hne : digits ≠ []) (hrest : Closes rest) :
    readDigits (digits ++ rest) = some (digits, rest) := by
  have htake : (digits ++ rest).takeWhile Char.isDigit = digits := by
    rw [List.takeWhile_append_of_pos hdigits]
    cases rest with
    | nil => simp
    | cons c rest => simp [hrest.not_isDigit]
  have hdrop : (digits ++ rest).dropWhile Char.isDigit = rest := by
    rw [List.dropWhile_append_of_pos hdigits]
    cases rest with
    | nil => rfl
    | cons c rest => simp [hrest.not_isDigit]
  unfold readDigits
  rw [htake, hdrop]
  cases digits with
  | nil => exact absurd rfl hne
  | cons c digits => rfl

theorem Closes.skipFraction {rest : List Char} (h : Closes rest) :
    Json.skipFraction rest = some (false, rest) := by
  cases rest with
  | nil => rfl
  | cons c rest => rcases h with rfl | rfl | rfl <;> rfl

theorem Closes.skipExponent {rest : List Char} (h : Closes rest) :
    Json.skipExponent rest = some (false, rest) := by
  cases rest with
  | nil => rfl
  | cons c rest => rcases h with rfl | rfl | rfl <;> rfl

theorem isDigit_of_mem_toDigits {n : Nat} {c : Char} (h : c ∈ Nat.toDigits 10 n) : c.isDigit :=
  Nat.isDigit_of_mem_toDigits (by decide) (by decide) h

theorem toDigits_head (n : Nat) : ∃ c tail, Nat.toDigits 10 n = c :: tail ∧ c.isDigit := by
  obtain ⟨c, tail, htail⟩ := List.exists_cons_of_ne_nil (Nat.toDigits_ne_nil (n := n) (b := 10))
  exact ⟨c, tail, htail, isDigit_of_mem_toDigits (htail ▸ List.mem_cons_self)⟩

theorem digitChar_ne_zero : ∀ d < 10, Nat.digitChar d = '0' → d = 0 := by
  decide

/-- Only zero is written with a zero in front. -/
theorem eq_zero_of_head?_toDigits {n : Nat} (h : (Nat.toDigits 10 n).head? = some '0') : n = 0 := by
  induction n using Nat.strongRecOn with
  | ind n ih =>
      by_cases hn : n < 10
      · rw [Nat.toDigits_of_lt_base hn] at h
        exact digitChar_ne_zero n hn (Option.some.inj h)
      · rw [Nat.toDigits_of_base_le (by decide) (by omega), List.head?_append,
          List.head?_eq_some_head Nat.toDigits_ne_nil, Option.some_or,
          ← List.head?_eq_some_head] at h
        have := ih (n / 10) (by omega) h
        omega

theorem readUnsigned_toDigits (negative : Bool) (n : Nat) {rest : List Char} (hrest : Closes rest)
    (hn : negative → n ≠ 0) :
    readUnsigned negative (Nat.toDigits 10 n ++ rest) =
      some (.int (if negative then -(n : Int) else n), rest) := by
  have hdigits : readDigits (Nat.toDigits 10 n ++ rest) = some (Nat.toDigits 10 n, rest) :=
    readDigits_append (fun _ => isDigit_of_mem_toDigits) Nat.toDigits_ne_nil hrest
  have hvalue : decimalValue (Nat.toDigits 10 n) = n := by
    have := Nat.ofDigitChars_toDigits (b := 10) (n := n) (by decide) (by decide)
    rwa [Nat.ofDigitChars_eq_foldl] at this
  have hzero : ¬((Nat.toDigits 10 n).head? = some '0' ∧ 1 < (Nat.toDigits 10 n).length) := by
    rintro ⟨hhead, hlength⟩
    obtain rfl := eq_zero_of_head?_toDigits hhead
    simp at hlength
  have hplain : (negative && n == 0) = false := by
    cases negative with
    | false => rfl
    | true => simpa using hn rfl
  simp only [readUnsigned, hdigits, Option.bind_eq_bind, Option.bind_some, if_neg hzero,
    hrest.skipFraction, hrest.skipExponent, hvalue, hplain, Bool.false_or, Bool.false_eq_true,
    if_false]

theorem ne_of_isDigit {c d : Char} (hc : c.isDigit) (hd : d.isDigit = false) : c ≠ d := by
  rintro rfl
  rw [hc] at hd
  cases hd

/-- A written number opens with its sign or a digit, and no other character. -/
theorem digits_head (n : Int) :
    ∃ c tail, digits n = c :: tail ∧ ∀ d : Char, d ≠ '-' → d.isDigit = false → c ≠ d := by
  cases n with
  | ofNat n =>
      obtain ⟨c, tail, htail, hc⟩ := toDigits_head n
      exact ⟨c, tail, htail, fun d _ hd => ne_of_isDigit hc hd⟩
  | negSucc n => exact ⟨_, _, rfl, fun d hd _ => hd.symm⟩

theorem readNumber_of_ne {c : Char} (hc : c ≠ '-') (input : List Char) :
    readNumber (c :: input) = readUnsigned false (c :: input) := by
  unfold readNumber
  split
  · next heq => exact absurd (List.cons.inj heq).1 hc
  · rfl

/-- Reading a written number. -/
theorem readNumber_digits (n : Int) {rest : List Char} (hrest : Closes rest) :
    readNumber (digits n ++ rest) = some (.int n, rest) := by
  cases n with
  | ofNat n =>
      obtain ⟨c, tail, htail, hc⟩ := toDigits_head n
      have hread := readUnsigned_toDigits false n hrest (by simp)
      rw [htail, List.cons_append] at hread
      rw [digits, htail, List.cons_append, readNumber_of_ne (ne_of_isDigit hc rfl), hread]
      rfl
  | negSucc n =>
      have hread := readUnsigned_toDigits true (n + 1) hrest (by simp)
      rw [digits, List.cons_append, readNumber, hread]
      simp [Int.negSucc_eq]

/-- Reading the number that stands for all those with a fraction. -/
theorem readNumber_decimal {rest : List Char} (hrest : Closes rest) :
    readNumber ('0' :: '.' :: '0' :: rest) = some (.decimal, rest) := by
  have hwhole : readDigits ('0' :: '.' :: '0' :: rest) = some (['0'], '.' :: '0' :: rest) := rfl
  have hdigits : ∀ c ∈ ['0'], c.isDigit := by
    rintro c (_ | ⟨_, ⟨⟩⟩)
    rfl
  have hfraction : readDigits ('0' :: rest) = some (['0'], rest) :=
    readDigits_append hdigits (List.cons_ne_nil _ _) hrest
  have hskip : Json.skipFraction ('.' :: '0' :: rest) = some (true, rest) := by
    rw [Json.skipFraction, hfraction]
    rfl
  rw [readNumber_of_ne (by decide), readUnsigned, hwhole]
  simp only [Option.bind_eq_bind, Option.bind_some, List.length_singleton, Nat.lt_irrefl, and_false,
    if_false, hskip, hrest.skipExponent, Bool.true_or, if_true]

/-! ## Values -/

/-- Whether a value is an array or an object. -/
def isContainer : Json → Bool
  | .arr _ | .obj _ => true
  | _ => false

theorem chars_eq_scalar {value : Json} (hvalue : value.isContainer = false) :
    chars value = scalar value := by
  cases value with
  | arr items => cases hvalue
  | obj members => cases hvalue
  | _ => rfl

/-- A value that is neither an array nor an object opens with no blank and no bracket. -/
theorem scalar_head {value : Json} (hvalue : value.isContainer = false) :
    ∃ c tail, scalar value = c :: tail ∧ isSpace c = false ∧ c ≠ '[' ∧ c ≠ ']' ∧ c ≠ '{' := by
  match value with
  | .int n =>
      obtain ⟨c, tail, htail, hc⟩ := digits_head n
      have hspace : isSpace c = false := by
        simp only [isSpace, Bool.or_eq_false_iff, decide_eq_false_iff_not]
        refine ⟨⟨⟨?_, ?_⟩, ?_⟩, ?_⟩ <;> exact hc _ (by decide) rfl
      refine ⟨c, tail, htail, hspace, ?_, ?_, ?_⟩ <;> exact hc _ (by decide) rfl
  | .str s => exact ⟨_, _, quoted_eq_cons s, rfl, by decide⟩
  | .null | .decimal | .bool true | .bool false => exact ⟨_, _, rfl, rfl, by decide⟩
  | .arr _ | .obj _ => cases hvalue

theorem readScalar_of_ne {c : Char} (hc : c ≠ 'n' ∧ c ≠ 't' ∧ c ≠ 'f' ∧ c ≠ '"') (fuel : Nat)
    (input : List Char) : readScalar fuel (c :: input) = readNumber (c :: input) := by
  obtain ⟨hn, ht, hf, hquote⟩ := hc
  unfold readScalar
  split
  · next heq => exact absurd (List.cons.inj heq).1 hn
  · next heq => exact absurd (List.cons.inj heq).1 ht
  · next heq => exact absurd (List.cons.inj heq).1 hf
  · next heq => exact absurd (List.cons.inj heq).1 hquote
  · rfl

/-- Reading the text of a value that is neither an array nor an object. -/
theorem readScalar_scalar {value : Json} (hvalue : value.isContainer = false) {fuel : Nat}
    {rest : List Char} (hfuel : (scalar value).length ≤ fuel) (hrest : Closes rest) :
    readScalar fuel (scalar value ++ rest) = some (value, rest) := by
  cases value with
  | null => rfl
  | bool b => cases b <;> rfl
  | int n =>
      obtain ⟨c, tail, htail, hc⟩ := digits_head n
      have hword : c ≠ 'n' ∧ c ≠ 't' ∧ c ≠ 'f' ∧ c ≠ '"' := by
        refine ⟨?_, ?_, ?_, ?_⟩ <;> exact hc _ (by decide) rfl
      have hread := readNumber_digits n hrest
      rw [htail, List.cons_append] at hread
      rw [scalar, htail, List.cons_append, readScalar_of_ne hword, hread]
  | decimal => exact readNumber_decimal hrest
  | str s =>
      have hread := readText_quoted s rest hfuel
      rw [scalar, quoted_eq_cons, List.cons_append, readScalar, hread]
      rfl
  | arr items => cases hvalue
  | obj members => cases hvalue

/-- The text of a value opens with a character that is no blank and closes no array. -/
theorem chars_head (value : Json) :
    ∃ c tail, chars value = c :: tail ∧ isSpace c = false ∧ c ≠ ']' := by
  cases hvalue : value.isContainer with
  | false =>
      obtain ⟨c, tail, htail, hspace, _, hc, _⟩ := scalar_head hvalue
      exact ⟨c, tail, (chars_eq_scalar hvalue).trans htail, hspace, hc⟩
  | true =>
      match value with
      | .arr [] | .obj [] | .arr (_ :: _) | .obj ((_, _) :: _) => exact ⟨_, _, rfl, rfl, by decide⟩

theorem skipSpace_cons {c : Char} (hc : isSpace c = false) (rest : List Char) :
    skipSpace (c :: rest) = c :: rest := by
  simp [skipSpace, hc]

/-- No blanks stand before the text of a value. -/
theorem skipSpace_chars (value : Json) (rest : List Char) :
    skipSpace (chars value ++ rest) = chars value ++ rest := by
  obtain ⟨c, tail, htail, hspace, _⟩ := chars_head value
  rw [htail, List.cons_append, skipSpace_cons hspace]

theorem closes_itemsChars (items : List Json) (rest : List Char) :
    Closes (itemsChars items ++ rest) := by
  cases items with
  | nil => exact .inr (.inl rfl)
  | cons item items => exact .inl rfl

theorem length_itemsChars_pos (items : List Json) : 0 < (itemsChars items).length := by
  cases items <;> simp [itemsChars]

theorem length_membersChars_pos (members : List (Option String × Json)) :
    0 < (membersChars members).length := by
  cases members <;> simp [membersChars]

theorem closes_membersChars (members : List (Option String × Json)) (rest : List Char) :
    Closes (membersChars members ++ rest) := by
  cases members with
  | nil => exact .inr (.inr rfl)
  | cons member members => exact .inl rfl

theorem readValue_of_ne {c : Char} (hc : c ≠ '[' ∧ c ≠ '{') (fuel : Nat) (input : List Char) :
    readValue (fuel + 1) (c :: input) = readScalar fuel (c :: input) := by
  unfold readValue
  split
  · next heq => cases heq
  · next heq => exact absurd (List.cons.inj heq).1 hc.1
  · next heq => exact absurd (List.cons.inj heq).1 hc.2
  · next heq _ _ => rw [Nat.succ.inj heq]

theorem readValue_scalar {value : Json} (hvalue : value.isContainer = false) {fuel : Nat}
    {rest : List Char} (hfuel : (scalar value).length < fuel) (hrest : Closes rest) :
    readValue fuel (scalar value ++ rest) = some (value, rest) := by
  obtain ⟨left, rfl⟩ := Nat.exists_eq_add_one_of_ne_zero (Nat.ne_zero_of_lt hfuel)
  obtain ⟨c, tail, htail, _, hopen, _, hbrace⟩ := scalar_head hvalue
  have hread := readScalar_scalar hvalue (Nat.le_of_lt_succ hfuel) hrest
  rw [htail, List.cons_append] at hread ⊢
  rw [readValue_of_ne ⟨hopen, hbrace⟩, hread]

/-- An array with items is read item by item. -/
theorem readValue_items (item : Json) (fuel : Nat) (rest : List Char) :
    readValue (fuel + 1) ('[' :: (chars item ++ rest)) =
      readItems fuel [] (chars item ++ rest) := by
  obtain ⟨c, tail, htail, hspace, hc⟩ := chars_head item
  rw [readValue, skipSpace_chars, htail, List.cons_append]
  split
  · next heq => exact absurd (List.cons.inj heq).1 hc
  · rfl

/-- What a reader does behind a member, with the members up to it, last first. -/
def readAfterMember (fuel : Nat) (done : List (Option String × Json)) :
    List Char → Option (Json × List Char)
  | ',' :: rest => readMembers fuel done rest
  | '}' :: rest => some (.obj done.reverse, rest)
  | _ => none

/-- A member, up to its value. -/
theorem readMembers_member {key : Option String} {value : Json} {fuel : Nat} {rest : List Char}
    (hkey : (quoted key).length ≤ fuel)
    (hvalue : readValue fuel (chars value ++ rest) = some (value, rest))
    (done : List (Option String × Json)) :
    readMembers (fuel + 1) done (quoted key ++ ':' :: (chars value ++ rest)) =
      readAfterMember fuel ((key, value) :: done) (skipSpace rest) := by
  have hread := readText_quoted key (':' :: (chars value ++ rest)) hkey
  rw [readMembers, quoted_eq_cons, List.cons_append, skipSpace_cons rfl]
  simp only [hread, skipSpace_cons (c := ':') rfl, skipSpace_chars, hvalue]
  rfl

mutual

/-- **A reader takes the text of a value.** -/
theorem readValue_chars : ∀ (value : Json) {fuel : Nat} {rest : List Char},
    (chars value).length < fuel → Closes rest →
      readValue fuel (chars value ++ rest) = some (value, rest)
  | .null, _, _, hfuel, hrest | .bool _, _, _, hfuel, hrest | .int _, _, _, hfuel, hrest
  | .decimal, _, _, hfuel, hrest | .str _, _, _, hfuel, hrest => readValue_scalar rfl hfuel hrest
  | .arr [], fuel + 1, _, _, _ | .obj [], fuel + 1, _, _, _ => rfl
  | .arr (item :: items), fuel + 1, rest, hfuel, _ => by
      have hpos := length_itemsChars_pos items
      simp only [chars, List.length_cons, List.length_append] at hfuel
      obtain ⟨left, rfl⟩ : ∃ left, fuel = left + 1 := ⟨fuel - 1, by omega⟩
      have hitem : readValue left (chars item ++ (itemsChars items ++ rest)) =
          some (item, itemsChars items ++ rest) :=
        readValue_chars item (by omega) (closes_itemsChars items rest)
      rw [chars, List.cons_append, List.append_assoc, readValue_items,
        readItems_chars items [] item hitem (by omega)]
      rfl
  | .obj ((key, value) :: members), fuel + 1, rest, hfuel, _ => by
      have hpos := length_membersChars_pos members
      simp only [chars, List.length_cons, List.length_append] at hfuel
      obtain ⟨left, rfl⟩ : ∃ left, fuel = left + 1 := ⟨fuel - 1, by omega⟩
      have hvalue : readValue left (chars value ++ (membersChars members ++ rest)) =
          some (value, membersChars members ++ rest) :=
        readValue_chars value (by omega) (closes_membersChars members rest)
      have hmembers := readMembers_chars members [] key value (by omega) hvalue (by omega)
      rw [quoted_eq_cons, List.cons_append] at hmembers
      simp only [chars, List.cons_append, List.append_assoc, readValue]
      rw [quoted_eq_cons, List.cons_append, skipSpace_cons rfl]
      exact hmembers

/-- From an item of an array on, a reader takes it and the items behind it. -/
theorem readItems_chars : ∀ (items done : List Json) (item : Json) {fuel : Nat} {rest : List Char},
    readValue fuel (chars item ++ (itemsChars items ++ rest)) =
        some (item, itemsChars items ++ rest) →
      (itemsChars items).length ≤ fuel →
      readItems (fuel + 1) done (chars item ++ (itemsChars items ++ rest)) =
        some (.arr (done.reverse ++ item :: items), rest)
  | [], done, item, fuel, rest, hitem, _ => by
      rw [readItems, skipSpace_chars, hitem]
      simp [itemsChars, skipSpace_cons (c := ']') rfl]
  | next :: items, done, item, fuel, rest, hitem, hfuel => by
      have hpos := length_itemsChars_pos items
      simp only [itemsChars, List.length_cons, List.length_append] at hfuel
      obtain ⟨left, rfl⟩ : ∃ left, fuel = left + 1 := ⟨fuel - 1, by omega⟩
      have hnext : readValue left (chars next ++ (itemsChars items ++ rest)) =
          some (next, itemsChars items ++ rest) :=
        readValue_chars next (by omega) (closes_itemsChars items rest)
      rw [readItems, skipSpace_chars, hitem]
      simp only [itemsChars, List.cons_append, List.append_assoc, skipSpace_cons (c := ',') rfl]
      rw [readItems_chars items (item :: done) next hnext (by omega)]
      simp

/-- From a member of an object on, a reader takes it and the members behind it. -/
theorem readMembers_chars : ∀ (members done : List (Option String × Json)) (key : Option String)
    (value : Json) {fuel : Nat} {rest : List Char},
    (quoted key).length ≤ fuel →
      readValue fuel (chars value ++ (membersChars members ++ rest)) =
        some (value, membersChars members ++ rest) →
      (membersChars members).length ≤ fuel →
      readMembers (fuel + 1) done
          (quoted key ++ ':' :: (chars value ++ (membersChars members ++ rest))) =
        some (.obj (done.reverse ++ (key, value) :: members), rest)
  | [], done, key, value, fuel, rest, hkey, hvalue, _ => by
      rw [readMembers_member hkey hvalue]
      simp [membersChars, skipSpace_cons (c := '}') rfl, readAfterMember]
  | (nextKey, next) :: members, done, key, value, fuel, rest, hkey, hvalue, hfuel => by
      have hpos := length_membersChars_pos members
      rw [readMembers_member hkey hvalue]
      simp only [membersChars, List.length_cons, List.length_append] at hfuel
      obtain ⟨left, rfl⟩ : ∃ left, fuel = left + 1 := ⟨fuel - 1, by omega⟩
      have hnext : readValue left (chars next ++ (membersChars members ++ rest)) =
          some (next, membersChars members ++ rest) :=
        readValue_chars next (by omega) (closes_membersChars members rest)
      simp only [membersChars, List.cons_append, List.append_assoc, skipSpace_cons (c := ',') rfl,
        readAfterMember]
      rw [readMembers_chars members ((key, value) :: done) nextKey next (by omega) hnext (by omega)]
      simp

end

/-- **Reading what was written gives the value back.** -/
theorem read?_compact (value : Json) : read? value.compact = some value := by
  have hread := @readValue_chars value _ [] (Nat.lt_add_one _) trivial
  have hspace := skipSpace_chars value []
  rw [List.append_nil] at hread hspace
  rw [read?, toList_compact, hspace, hread]
  rfl

end RoutineEmulator.Json
