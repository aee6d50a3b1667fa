import RoutineEmulator.Text.Hexadecimal
/-!
Byte strings as pairs of digits.

A byte string is read from the UTF-8 bytes of its text. `Spells` is the same format on characters:
an even number of hexadecimal digits, two for each byte. Both agree on every text, since a character
beyond ASCII starts with a byte that is no digit.
-/

namespace RoutineEmulator.Text

/-- The text spells the bytes: two hexadecimal digits for each of them, the high one first. -/
inductive Spells : List Char → List UInt8 → Prop
  | nil : Spells [] []
  | cons {high low : Char} {h l : Nat} {text : List Char} {bytes : List UInt8} :
      hexDigit? high = some h → hexDigit? low = some l → Spells text bytes →
      Spells (high :: low :: text) (UInt8.ofNat (16 * h + l) :: bytes)

/-- A hexadecimal digit is an ASCII character. -/
theorem toNat_lt_of_hexDigit? {c : Char} {digit : Nat} (h : hexDigit? c = some digit) :
    c.toNat < 128 := by
  have hle : ∀ last : Char, last.toNat < 128 → c ≤ last → c.toNat < 128 :=
    fun last hlast hc => Nat.lt_of_le_of_lt (UInt32.le_iff_toNat_le.mp hc) hlast
  unfold hexDigit? at h
  split at h
  · rename_i hrange
    exact hle '9' (by decide) hrange.2
  split at h
  · rename_i hrange
    exact hle 'f' (by decide) hrange.2
  split at h
  · rename_i hrange
    exact hle 'F' (by decide) hrange.2
  · cases h

/-- What spells a byte string is made of digits. -/
theorem Spells.digits {text : List Char} {bytes : List UInt8} (h : Spells text bytes) :
    ∀ c ∈ text, ∃ digit, hexDigit? c = some digit := by
  induction h with
  | nil => exact nofun
  | cons hhigh hlow _ ih =>
      intro c hc
      rcases List.mem_cons.mp hc with rfl | hc
      · exact ⟨_, hhigh⟩
      rcases List.mem_cons.mp hc with rfl | hc
      · exact ⟨_, hlow⟩
      · exact ih c hc

/-! ## Bytes of a text -/

/-- The character with the code of a byte. -/
def latin (byte : UInt8) : Char :=
  Char.ofNat byte.toNat

/-- Digit pairs are read where the bytes, taken as characters, spell them. -/
theorem readDigitPairs_eq_ok_iff (position : Nat) (digits bytes : List UInt8) :
    readDigitPairs position digits = .ok bytes ↔ Spells (digits.map latin) bytes := by
  induction position, digits using readDigitPairs.induct generalizing bytes with
  | case1 position =>
      constructor
      · intro h
        cases h
        exact .nil
      · intro h
        cases h
        rfl
  | case2 position byte =>
      constructor
      · intro h
        cases h
      · intro h
        cases h
  | case3 position high low rest hhigh =>
      simp only [readDigitPairs, hhigh, reduceCtorEq, false_iff]
      intro h
      cases h with
      | cons hdigit _ _ => exact Option.some_ne_none _ (hdigit.symm.trans hhigh)
  | case4 position high low rest h hhigh hlow =>
      simp only [readDigitPairs, hhigh, hlow, reduceCtorEq, false_iff]
      intro h
      cases h with
      | cons _ hdigit _ => exact Option.some_ne_none _ (hdigit.symm.trans hlow)
  | case5 position high low rest h hhigh l hlow ih =>
      simp only [readDigitPairs, hhigh, hlow]
      constructor
      · intro hread
        cases hrest : readDigitPairs (position + 2) rest with
        | error e =>
            rw [hrest] at hread
            cases hread
        | ok tail =>
            rw [hrest] at hread
            cases hread
            exact .cons hhigh hlow ((ih tail).mp hrest)
      · intro hspells
        cases hspells with
        | cons hhigh' hlow' htail =>
            cases hhigh.symm.trans hhigh'
            cases hlow.symm.trans hlow'
            rw [(ih _).mpr htail]
            rfl

theorem toList_loop (bytes : ByteArray) (i : Nat) (front : List UInt8) :
    ByteArray.toList.loop bytes i front = front.reverse ++ bytes.data.toList.drop i := by
  fun_induction ByteArray.toList.loop bytes i front with
  | case1 i front hlt ih =>
      have hi : i < bytes.data.toList.length := by simpa using hlt
      rw [ih, List.drop_eq_getElem_cons hi]
      simp [ByteArray.get!, hlt]
  | case2 i front hle =>
      rw [List.drop_eq_nil_of_le (by simpa using Nat.le_of_not_lt hle), List.append_nil]

/-- The bytes of a text are those of its characters. -/
theorem toList_toUTF8 (text : String) :
    text.toUTF8.toList = text.toList.flatMap String.utf8EncodeChar := by
  have hbytes : text.toUTF8 = text.toList.utf8Encode := by
    rw [← String.toByteArray_ofList, String.ofList_toList, String.toUTF8]
  rw [ByteArray.toList, toList_loop, List.reverse_nil, List.nil_append, List.drop_zero, hbytes]
  exact List.toList_data_toByteArray

/-- An ASCII character is one byte, its own code. -/
theorem map_latin_utf8EncodeChar {c : Char} (h : c.toNat < 128) :
    (String.utf8EncodeChar c).map latin = [c] := by
  have hcode : (UInt8.ofNat c.toNat).toNat = c.toNat :=
    UInt8.toNat_ofNat_of_lt (Nat.lt_trans h (by decide))
  have hencode : String.utf8EncodeChar c = [UInt8.ofNat c.toNat] :=
    if_pos (Nat.le_of_lt_succ h)
  rw [hencode, List.map_singleton, latin, hcode, Char.ofNat_toNat]

/-- Any other character starts with a byte that is none. -/
theorem exists_mem_utf8EncodeChar {c : Char} (h : ¬ c.toNat < 128) :
    ∃ byte ∈ String.utf8EncodeChar c, 128 ≤ byte.toNat := by
  have hcode : ¬ c.val.toNat ≤ 127 := fun hle => h (Nat.lt_succ_of_le hle)
  unfold String.utf8EncodeChar
  dsimp only
  rw [if_neg hcode]
  split
  · exact ⟨_, List.mem_cons_self, by rw [UInt8.toNat_ofNat']; omega⟩
  split
  · exact ⟨_, List.mem_cons_self, by rw [UInt8.toNat_ofNat']; omega⟩
  · exact ⟨_, List.mem_cons_self, by rw [UInt8.toNat_ofNat']; omega⟩

theorem hexDigit?_latin {byte : UInt8} (h : 128 ≤ byte.toNat) : hexDigit? (latin byte) = none := by
  have hcode : (latin byte).toNat = byte.toNat := by
    have hvalid : byte.toNat.isValidChar := .inl (Nat.lt_trans byte.toNat_lt (by decide))
    rw [latin, Char.ofNat, dif_pos hvalid]
    rfl
  cases hdigit : hexDigit? (latin byte) with
  | none => rfl
  | some digit =>
      have hlt := toNat_lt_of_hexDigit? hdigit
      omega

/-- The bytes of an ASCII text are its characters. -/
theorem map_latin_flatMap {text : List Char} (h : ∀ c ∈ text, c.toNat < 128) :
    (text.flatMap String.utf8EncodeChar).map latin = text := by
  induction text with
  | nil => rfl
  | cons c text ih =>
      rw [List.flatMap_cons, List.map_append, map_latin_utf8EncodeChar (h c List.mem_cons_self),
        ih fun c hc => h c (List.mem_cons_of_mem _ hc), List.singleton_append]

/-- The bytes of a text spell what its characters spell. -/
theorem spells_bytes_iff (text : List Char) (bytes : List UInt8) :
    Spells ((text.flatMap String.utf8EncodeChar).map latin) bytes ↔ Spells text bytes := by
  constructor
  · intro h
    have hascii : ∀ c ∈ text, c.toNat < 128 := by
      intro c hc
      refine Classical.byContradiction fun hwide => ?_
      obtain ⟨byte, hbyte, hlarge⟩ := exists_mem_utf8EncodeChar hwide
      obtain ⟨digit, hdigit⟩ := h.digits (latin byte)
        (List.mem_map_of_mem (List.mem_flatMap.mpr ⟨c, hc, hbyte⟩))
      rw [hexDigit?_latin hlarge] at hdigit
      cases hdigit
    rwa [map_latin_flatMap hascii] at h
  · intro h
    have hascii : ∀ c ∈ text, c.toNat < 128 := by
      intro c hc
      obtain ⟨digit, hdigit⟩ := h.digits c hc
      exact toNat_lt_of_hexDigit? hdigit
    rwa [map_latin_flatMap hascii]

/-- Two digits stand for each byte, so the length of the text is even. -/
theorem Spells.length_eq {text : List Char} {bytes : List UInt8} (h : Spells text bytes) :
    text.length = 2 * bytes.length := by
  induction h with
  | nil => rfl
  | cons _ _ _ ih =>
      simp only [List.length_cons, ih]
      omega

/-- **A text is read as a byte string exactly where it spells one.** -/
theorem bytesOfHex_eq_ok_iff (text : String) (bytes : List UInt8) :
    bytesOfHex text = .ok bytes ↔ Spells text.toList bytes := by
  have hread := readDigitPairs_eq_ok_iff 0 (text.toList.flatMap String.utf8EncodeChar) bytes
  rw [spells_bytes_iff] at hread
  unfold bytesOfHex
  rw [toList_toUTF8]
  dsimp only
  split
  · rename_i hodd
    refine iff_of_false nofun fun h => ?_
    have heven := ((spells_bytes_iff text.toList bytes).mpr h).length_eq
    rw [List.length_map] at heven
    omega
  · exact hread

end RoutineEmulator.Text
