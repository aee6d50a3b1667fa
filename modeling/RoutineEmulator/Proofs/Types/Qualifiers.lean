import RoutineEmulator.Proofs.Types.Signatures
/-!
Qualifiers in front of a signature, and stars behind it.

Where no type is named with a qualifier in front, qualifiers do not matter for a size: they come off
one by one, and what stands behind the last one decides. A star decides before any of them, and as
many stars as stand behind a signature lead back to it.
-/

namespace RoutineEmulator

namespace Text

/-! ## Texts that are not blank -/

/-- The text has a character that is not blank. -/
def IsInked (text : List Char) : Prop :=
  ∃ c ∈ text, isBlank c = false

theorem IsInked.append {text : List Char} (h : IsInked text) (front : List Char) :
    IsInked (front ++ text) := by
  obtain ⟨c, hc, hinked⟩ := h
  exact ⟨c, List.mem_append_right front hc, hinked⟩

theorem trimEnd_ne_nil {text : List Char} (h : IsInked text) : trimEnd text ≠ [] := by
  obtain ⟨c, hc, hinked⟩ := h
  intro hnil
  have hall := List.dropWhile_eq_nil_iff.mp (List.reverse_eq_nil_iff.mp hnil)
  have hblank := hall c (List.mem_reverse.mpr hc)
  rw [hinked] at hblank
  cases hblank

/-- What stands in front of a text that is not blank is not trimmed off its end. -/
theorem trimEnd_append_of_inked (front : List Char) {text : List Char} (h : IsInked text) :
    trimEnd (front ++ text) = front ++ trimEnd text := by
  have hkept : (text.reverse.dropWhile isBlank).isEmpty = false := by
    have hne := trimEnd_ne_nil h
    unfold trimEnd at hne
    rw [Ne, List.reverse_eq_nil_iff] at hne
    simpa using hne
  unfold trimEnd
  rw [List.reverse_append, List.dropWhile_append, hkept]
  simp

/-- What is trimmed off at both ends is blank. -/
theorem exists_blank_around (text : List Char) :
    ∃ leading trailing, (∀ c ∈ leading, isBlank c = true) ∧ (∀ c ∈ trailing, isBlank c = true) ∧
      text = leading ++ (trim text ++ trailing) := by
  obtain ⟨trailing, htrailing, hstart⟩ := exists_blank_append (trimStart text)
  refine ⟨text.takeWhile isBlank, trailing, fun c hc => List.mem_takeWhile_imp hc, htrailing, ?_⟩
  calc text = text.takeWhile isBlank ++ trimStart text := List.takeWhile_append_dropWhile.symm
    _ = text.takeWhile isBlank ++ (trim text ++ trailing) := by rw [hstart]; rfl

theorem trim_blank_append {blanks : List Char} (h : ∀ c ∈ blanks, isBlank c = true)
    (text : List Char) : trim (blanks ++ text) = trim text := by
  unfold trim trimStart
  rw [List.dropWhile_append_of_pos h]

end Text

namespace Signature

open Text

/-! ## Stars -/

theorem stripPointer?_append_of_blank (signature : List Char) {blanks : List Char}
    (h : ∀ c ∈ blanks, isBlank c = true) :
    stripPointer? (signature ++ blanks) = stripPointer? signature := by
  unfold stripPointer?
  rw [trimEnd_append_of_blank signature h]

/-- A signature is that of a pointer where the last character of it that is not blank is a star. -/
theorem isSome_stripPointer?_iff {signature : List Char} :
    (stripPointer? signature).isSome = true ↔
      ∃ front blanks, (∀ c ∈ blanks, isBlank c = true) ∧ signature = front ++ ['*'] ++ blanks := by
  constructor
  · intro h
    obtain ⟨base, hbase⟩ := Option.isSome_iff_exists.mp h
    obtain ⟨front, hfront⟩ := exists_of_stripPointer? hbase
    obtain ⟨blanks, hblank, hsignature⟩ := exists_blank_append signature
    exact ⟨front, blanks, hblank, by rw [← hfront]; exact hsignature⟩
  · rintro ⟨front, blanks, hblank, rfl⟩
    rw [stripPointer?_append_of_blank _ hblank, stripPointer?_star]
    rfl

/-- Text in front of a signature does not make a pointer, nor does it hide one. -/
theorem isSome_stripPointer?_append (front : List Char) {signature : List Char}
    (h : IsInked signature) :
    (stripPointer? (front ++ signature)).isSome = (stripPointer? signature).isSome := by
  obtain ⟨last, rest, hreverse⟩ := List.exists_cons_of_ne_nil
    (mt List.reverse_eq_nil_iff.mp (trimEnd_ne_nil h))
  unfold stripPointer?
  rw [trimEnd_append_of_inked front h, List.reverse_append, hreverse, List.cons_append]
  by_cases hlast : last = '*'
  · subst hlast
    rfl
  · split <;> split <;> simp_all

theorem isSome_stripPointer?_trim_eq {signature : List Char} (h : IsInked signature) :
    (stripPointer? (trim signature)).isSome = (stripPointer? signature).isSome := by
  obtain ⟨leading, trailing, hleading, htrailing, hsignature⟩ := exists_blank_around signature
  have hinked : IsInked (trim signature ++ trailing) := by
    obtain ⟨c, hc, hinked⟩ := h
    rw [hsignature] at hc
    rcases List.mem_append.mp hc with hc | hc
    · rw [hleading c hc] at hinked
      cases hinked
    · exact ⟨c, hc, hinked⟩
  calc (stripPointer? (trim signature)).isSome
      = (stripPointer? (trim signature ++ trailing)).isSome := by
        rw [stripPointer?_append_of_blank _ htrailing]
    _ = (stripPointer? (leading ++ (trim signature ++ trailing))).isSome :=
        (isSome_stripPointer?_append leading hinked).symm
    _ = (stripPointer? signature).isSome := by rw [← hsignature]

/-! ## Qualifiers -/

/-- The first signature with any number of qualifiers in front of it, each with any number of blanks
behind it. -/
inductive Qualified (signature : List Char) : List Char → Prop
  | bare : Qualified signature signature
  | behind {word blanks rest : List Char} : word ∈ qualifiers → (∀ c ∈ blanks, isBlank c = true) →
      Qualified signature rest → Qualified signature (word ++ blanks ++ rest)

/-- The qualifier in front is the one that is taken off. -/
theorem unqualified?_append {word : List Char} (h : word ∈ qualifiers) (rest : List Char) :
    unqualified? (word ++ rest) = some rest := by
  simp only [qualifiers, List.mem_cons, List.not_mem_nil, or_false] at h
  rcases h with rfl | rfl
  · rfl
  · rfl

/-- A qualifier starts with a letter. -/
theorem exists_letter_of_mem_qualifiers {word : List Char} (h : word ∈ qualifiers) :
    ∃ letter rest, word = letter :: rest ∧ isBlank letter = false := by
  simp only [qualifiers, List.mem_cons, List.not_mem_nil, or_false] at h
  rcases h with rfl | rfl
  · exact ⟨_, _, rfl, by decide⟩
  · exact ⟨_, _, rfl, by decide⟩

theorem Qualified.isInked {signature qualified : List Char} (h : Qualified signature qualified)
    (hinked : IsInked signature) : IsInked qualified := by
  induction h with
  | bare => exact hinked
  | behind _ _ _ ih => exact ih.append _

/-- A signature with a qualifier in front keeps all of that when it is trimmed. -/
theorem trim_qualifier_append {word : List Char} (h : word ∈ qualifiers) {rest : List Char}
    (hinked : IsInked rest) : trim (word ++ rest) = word ++ trimEnd rest := by
  obtain ⟨letter, more, rfl, hletter⟩ := exists_letter_of_mem_qualifiers h
  unfold trim trimStart
  rw [List.cons_append, List.dropWhile_cons_of_neg (by simp [hletter]), ← List.cons_append,
    trimEnd_append_of_inked _ hinked]

end Signature

namespace TypeTable

open Text Signature

/-- No type is named with a qualifier in front. -/
def Unqualified (t : TypeTable) : Prop :=
  ∀ name ∈ t.sizes, ∀ word ∈ qualifiers, ¬ word <+: name.toList

theorem mem_sizes_extend {t : TypeTable} {types : List (String × Nat)} {name : String} :
    name ∈ (t.extend types).sizes ↔ name ∈ t.sizes ∨ name ∈ types.map Prod.fst := by
  induction types generalizing t with
  | nil => simp [extend]
  | cons type rest ih =>
      have hadd : name ∈ (t.add type.1 type.2).sizes ↔ name ∈ t.sizes ∨ name = type.1 := by
        rw [add, Std.ExtTreeMap.mem_insert, Std.LawfulEqCmp.compare_eq_iff_eq, or_comm, eq_comm]
      show name ∈ ((t.add type.1 type.2).extend rest).sizes ↔ _
      rw [ih, hadd, List.map_cons, List.mem_cons, or_assoc]

/-- No built-in type is named with a qualifier in front. -/
theorem unqualified_withPointerSize (pointerSize : Nat) :
    (withPointerSize pointerSize).Unqualified := by
  have hbuiltins : ∀ name ∈ builtins.map Prod.fst, ∀ word ∈ qualifiers, ¬ word <+: name.toList := by
    decide
  have hnarrow : ∀ name ∈ narrowBuiltins.map Prod.fst, name ∈ builtins.map Prod.fst := by
    decide
  intro name hname
  refine hbuiltins name ?_
  have hempty : name ∉ (empty pointerSize).sizes := Std.ExtTreeMap.not_mem_empty
  unfold withPointerSize at hname
  dsimp only at hname
  split at hname
  · rw [mem_sizes_extend, mem_sizes_extend] at hname
    exact hname.elim (·.resolve_left hempty) (hnarrow name)
  · exact (mem_sizes_extend.mp hname).resolve_left hempty

/-- One qualifier in front of a signature does not matter for its size. -/
theorem sizeOfChars?_qualifier {t : TypeTable} (h : t.Unqualified) {word : List Char}
    (hword : word ∈ qualifiers) {rest : List Char} (hinked : IsInked rest) :
    t.sizeOfChars? (word ++ rest) = t.sizeOfChars? rest := by
  have htrim := trim_qualifier_append hword hinked
  have hpointer : (stripPointer? (trim (word ++ rest))).isSome =
      (stripPointer? (trim rest)).isSome := by
    have hwhole : IsInked (word ++ rest) := hinked.append word
    rw [isSome_stripPointer?_trim_eq hwhole, isSome_stripPointer?_append word hinked,
      isSome_stripPointer?_trim_eq hinked]
  by_cases hstar : (stripPointer? (trim rest)).isSome = true
  · rw [sizeOfChars?, if_pos (hpointer.trans hstar), sizeOfChars?, if_pos hstar]
  · -- no type has this name, so the qualifier comes off, and what is left is looked up again
    have hlookup : t.sizes[String.ofList (trim (word ++ rest))]? = none := by
      refine Std.ExtTreeMap.getElem?_eq_none fun hmem => h _ hmem word hword ?_
      rw [String.toList_ofList, htrim]
      exact List.prefix_append word _
    have hoff : unqualified? (trim (word ++ rest)) = some (trimEnd rest) := by
      rw [htrim, unqualified?_append hword]
    rw [sizeOfChars?, if_neg (by rw [hpointer]; exact hstar), hlookup]
    dsimp only
    split
    · rename_i rest' hrest'
      obtain rfl := Option.some.inj (hoff.symm.trans hrest')
      exact t.sizeOfChars?_congr (trim_trimEnd rest)
    · rename_i hnone
      cases hoff.symm.trans hnone

/-- Any number of qualifiers in front of a signature do not matter for its size. -/
theorem sizeOfChars?_qualified {t : TypeTable} (h : t.Unqualified) {signature qualified : List Char}
    (hqualified : Qualified signature qualified) (hinked : IsInked signature) :
    t.sizeOfChars? qualified = t.sizeOfChars? signature := by
  induction hqualified with
  | bare => rfl
  | @behind word blanks rest hword hblank hrest ih =>
      have hrestInked := hrest.isInked hinked
      calc t.sizeOfChars? (word ++ blanks ++ rest)
          = t.sizeOfChars? (blanks ++ rest) := by
            rw [List.append_assoc]
            exact sizeOfChars?_qualifier h hword (hrestInked.append blanks)
        _ = t.sizeOfChars? rest := t.sizeOfChars?_congr (trim_blank_append hblank rest)
        _ = t.sizeOfChars? signature := ih

end TypeTable

/-! ## Several stars -/

/-- The signature behind so many pointers. -/
def pointee? : Nat → String → Option String
  | 0, signature => some signature
  | k + 1, signature => (baseSignature? signature).bind (pointee? k)

/-- So many stars. -/
def stars (k : Nat) : String :=
  String.ofList (List.replicate k '*')

open Text

theorem pointee?_add (j k : Nat) (signature : String) :
    pointee? (j + k) signature = (pointee? j signature).bind (pointee? k) := by
  induction j generalizing signature with
  | zero => rw [Nat.zero_add]; rfl
  | succ j ih =>
      rw [Nat.add_right_comm, pointee?, pointee?, Option.bind_assoc]
      exact congrArg _ (funext ih)

/-- Taking a star off shortens a signature. -/
theorem length_baseSignature?_lt {signature base : String}
    (h : baseSignature? signature = some base) :
    base.length < signature.length := by
  obtain ⟨chars, hchars, rfl⟩ := Option.map_eq_some_iff.mp h
  unfold Signature.stripPointer? at hchars
  split at hchars
  · rename_i rest hreverse
    obtain rfl := Option.some.inj hchars
    have htrim : (trimEnd signature.toList).length = rest.length + 1 := by
      rw [← List.length_reverse, hreverse, List.length_cons]
    have hbase := length_trimEnd_le rest.reverse
    have hsignature := length_trimEnd_le signature.toList
    rw [List.length_reverse] at hbase
    rw [String.length_ofList, ← String.length_toList]
    omega
  · cases hchars

theorem length_pointee?_le {k : Nat} {signature base : String}
    (h : pointee? k signature = some base) :
    base.length + k ≤ signature.length := by
  induction k generalizing signature with
  | zero =>
      obtain rfl := Option.some.inj h
      exact Nat.le_refl _
  | succ k ih =>
      obtain ⟨between, hbetween, hrest⟩ := Option.bind_eq_some_iff.mp h
      have hfirst := length_baseSignature?_lt hbetween
      have hlater := ih hrest
      omega

/-- No signature is found twice behind the pointers of another one. -/
theorem pointee?_inj {j k : Nat} {signature base : String} (hj : pointee? j signature = some base)
    (hk : pointee? k signature = some base) : j = k := by
  have hlater {j k : Nat} (hj : pointee? j signature = some base)
      (hk : pointee? k signature = some base) (hle : j ≤ k) : j = k := by
    obtain ⟨i, rfl⟩ := Nat.exists_eq_add_of_le hle
    rw [pointee?_add, hj] at hk
    have hlength := length_pointee?_le (show pointee? i base = some base from hk)
    omega
  rcases Nat.le_total j k with hle | hle
  · exact hlater hj hk hle
  · exact (hlater hk hj hle).symm

theorem baseSignature?_star (signature : String) :
    baseSignature? (signature ++ "*") = some (String.ofList (trimEnd signature.toList)) := by
  unfold baseSignature?
  rw [String.toList_append, show "*".toList = ['*'] from rfl, Signature.stripPointer?_star]
  rfl

theorem append_stars_succ (signature : String) (k : Nat) :
    signature ++ stars (k + 1) = signature ++ stars k ++ "*" := by
  rw [← String.toList_inj]
  simp [stars, List.replicate_succ']

/-- As many stars as stand behind a signature lead back to it. -/
theorem pointee?_stars (signature : String) (k : Nat) :
    pointee? (k + 1) (signature ++ stars (k + 1)) =
      some (String.ofList (trimEnd signature.toList)) := by
  induction k with
  | zero =>
      rw [append_stars_succ, pointee?, baseSignature?_star]
      simp [pointee?, stars]
  | succ k ih =>
      -- what is left behind the first star ends in a star itself, so nothing more comes off with it
      have hkept : trimEnd (signature ++ stars (k + 1)).toList =
          (signature ++ stars (k + 1)).toList := by
        rw [append_stars_succ, String.toList_append]
        exact trimEnd_concat _ (by decide)
      rw [append_stars_succ, pointee?, baseSignature?_star, hkept, String.ofList_toList]
      exact ih

namespace TypeTable

open Signature

/-- **Blanks, qualifiers and stars.** Where no type is named with a qualifier in front, a signature
that is not blank has the size that it has with any qualifiers in front of it, each with blanks
behind it, and with blanks around all of that. A signature has the size of a pointer wherever it has
a base, which is where its last character that is not blank is a star. And it takes exactly as many
steps from base to base as stars were put behind a signature to come back to it. -/
theorem sizeOf?_qualified_and_starred (t : TypeTable) :
    (t.Unqualified → ∀ signature qualified leading trailing : String,
      IsInked signature.toList → Qualified signature.toList qualified.toList →
      (∀ c ∈ leading.toList, isBlank c = true) → (∀ c ∈ trailing.toList, isBlank c = true) →
      t.sizeOf? (leading ++ qualified ++ trailing) = t.sizeOf? signature) ∧
    (∀ signature, (baseSignature? signature).isSome →
      t.sizeOf? signature = some t.pointerSize) ∧
    (∀ signature : String, (baseSignature? signature).isSome ↔
      ∃ front blanks, (∀ c ∈ blanks, isBlank c = true) ∧
        signature.toList = front ++ ['*'] ++ blanks) ∧
    (∀ (signature : String) (k : Nat), 1 ≤ k → ∀ steps,
      pointee? steps (signature ++ stars k) = some (String.ofList (trimEnd signature.toList)) ↔
        steps = k) := by
  refine ⟨?_, ?_, ?_, ?_⟩
  · intro hunqualified signature qualified leading trailing hinked hqualified hleading htrailing
    have haround : trim (leading ++ qualified ++ trailing).toList = trim qualified.toList := by
      rw [String.toList_append, String.toList_append, trim_append_of_blank _ htrailing,
        trim_blank_append hleading]
    unfold sizeOf?
    rw [t.sizeOfChars?_congr haround]
    exact sizeOfChars?_qualified hunqualified hqualified hinked
  · exact fun signature h => t.sizeOf?_of_pointer h
  · intro signature
    rw [baseSignature?, Option.isSome_map]
    exact isSome_stripPointer?_iff
  · intro signature k hk steps
    obtain ⟨k, rfl⟩ := Nat.exists_eq_add_of_le' hk
    have hback := pointee?_stars signature k
    constructor
    · exact fun h => pointee?_inj h hback
    · rintro rfl
      exact hback

/-- Two qualifiers in the other order, with blanks of several kinds around them. -/
theorem sizeOf?_qualified_and_starred_int :
    standard.sizeOf? "\t volatile  const \n int " = standard.sizeOf? "int" := by
  have hinked : IsInked "int".toList := ⟨'i', by simp, rfl⟩
  have hinner : Qualified "int".toList "const \n int".toList :=
    @Qualified.behind _ "const ".toList ['\n', ' '] _ (by simp [qualifiers])
      (List.all_eq_true.mp rfl) .bare
  have houter : Qualified "int".toList "volatile  const \n int".toList :=
    @Qualified.behind _ "volatile ".toList [' '] _ (by simp [qualifiers])
      (List.all_eq_true.mp rfl) hinner
  exact (sizeOf?_qualified_and_starred standard).1 (unqualified_withPointerSize 8) "int"
    "volatile  const \n int" "\t " " " hinked houter (List.all_eq_true.mp rfl)
    (List.all_eq_true.mp rfl)

end TypeTable

end RoutineEmulator
