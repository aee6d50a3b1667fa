import Mathlib.Data.List.TakeWhile
import RoutineEmulator.Types
/-!
Signatures of pointers.

Blanks behind a signature do not matter for its size. So a star behind the signature of a type makes
the signature of a pointer to it, and what that pointer points to has the size of the type. The
pointer itself has the one size that a table has for all pointers.
-/

namespace RoutineEmulator

namespace Text

/-! ## Blanks at the end -/

theorem trimEnd_append_of_blank (text : List Char) {blanks : List Char}
    (h : ∀ c ∈ blanks, isBlank c = true) : trimEnd (text ++ blanks) = trimEnd text := by
  have hreverse : ∀ c ∈ blanks.reverse, isBlank c = true := fun c hc => h c (List.mem_reverse.mp hc)
  unfold trimEnd
  rw [List.reverse_append, List.dropWhile_append_of_pos hreverse]

theorem trim_append_of_blank (text : List Char) {blanks : List Char}
    (h : ∀ c ∈ blanks, isBlank c = true) : trim (text ++ blanks) = trim text := by
  unfold trim
  rw [trimStart, trimStart, List.dropWhile_append]
  split
  · rename_i hempty
    -- the text is blank itself, so nothing is left in either case
    rw [List.isEmpty_iff.mp hempty, List.dropWhile_eq_nil_iff.mpr h]
  · exact trimEnd_append_of_blank _ h

/-- What is trimmed off is blank. -/
theorem exists_blank_append (text : List Char) :
    ∃ blanks, (∀ c ∈ blanks, isBlank c = true) ∧ text = trimEnd text ++ blanks := by
  refine ⟨(text.reverse.takeWhile isBlank).reverse, fun c hc => ?_, ?_⟩
  · exact List.mem_takeWhile_imp (List.mem_reverse.mp hc)
  · unfold trimEnd
    rw [← List.reverse_append, List.takeWhile_append_dropWhile, List.reverse_reverse]

theorem trim_trimEnd (text : List Char) : trim (trimEnd text) = trim text := by
  obtain ⟨blanks, hblank, htext⟩ := exists_blank_append text
  calc trim (trimEnd text) = trim (trimEnd text ++ blanks) :=
        (trim_append_of_blank _ hblank).symm
    _ = trim text := by rw [← htext]

/-- A text whose last character is not blank is kept. -/
theorem trimEnd_concat (text : List Char) {last : Char} (h : isBlank last = false) :
    trimEnd (text ++ [last]) = text ++ [last] := by
  unfold trimEnd
  rw [List.reverse_append, List.reverse_singleton, List.singleton_append,
    List.dropWhile_cons_of_neg (by simp [h]), List.reverse_cons, List.reverse_reverse]

end Text

/-! ## Pointers -/

theorem Signature.stripPointer?_star (signature : List Char) :
    stripPointer? (signature ++ ['*']) = some (Text.trimEnd signature) := by
  unfold stripPointer?
  rw [Text.trimEnd_concat signature (by decide), List.reverse_append, List.reverse_singleton,
    List.singleton_append]
  show some (Text.trimEnd signature.reverse.reverse) = _
  rw [List.reverse_reverse]

/-- A signature whose star is stripped ends in it, but for blanks. -/
theorem Signature.exists_of_stripPointer? {signature base : List Char}
    (h : stripPointer? signature = some base) :
    ∃ front, Text.trimEnd signature = front ++ ['*'] := by
  unfold stripPointer? at h
  split at h
  · rename_i rest hreverse
    refine ⟨rest.reverse, ?_⟩
    rw [← List.reverse_reverse (Text.trimEnd signature), hreverse, List.reverse_cons]
  · cases h

/-- The blanks around a signature do not matter for whether it is that of a pointer. -/
theorem Signature.isSome_stripPointer?_trim {signature : List Char}
    (h : (stripPointer? signature).isSome = true) :
    (stripPointer? (Text.trim signature)).isSome = true := by
  obtain ⟨base, hbase⟩ := Option.isSome_iff_exists.mp h
  obtain ⟨front, hfront⟩ := exists_of_stripPointer? hbase
  have hstart : Text.trimStart (front ++ ['*']) = front.dropWhile Text.isBlank ++ ['*'] := by
    rw [Text.trimStart, List.dropWhile_append]
    split
    · rename_i hempty
      rw [List.isEmpty_iff.mp hempty]
      rfl
    · rfl
  have htrim : Text.trim signature = front.dropWhile Text.isBlank ++ ['*'] := by
    rw [← Text.trim_trimEnd, hfront, Text.trim, hstart, Text.trimEnd_concat _ (by decide)]
  rw [htrim, stripPointer?_star]
  rfl

namespace TypeTable

/-- Pointers have the size of a pointer, whatever they point to. -/
theorem sizeOf?_of_pointer (t : TypeTable) {signature : String}
    (h : (baseSignature? signature).isSome = true) : t.sizeOf? signature = some t.pointerSize := by
  have hstar := Signature.isSome_stripPointer?_trim (Option.isSome_map.symm.trans h)
  rw [sizeOf?, sizeOfChars?, if_pos hstar]

/-- Named types leave the size of a pointer as it is. -/
theorem pointerSize_extend (t : TypeTable) (types : List (String × Nat)) :
    (t.extend types).pointerSize = t.pointerSize := by
  induction types generalizing t with
  | nil => rfl
  | cons type rest ih => exact ih (t.add type.1 type.2)

theorem pointerSize_withPointerSize (size : Nat) : (withPointerSize size).pointerSize = size := by
  unfold withPointerSize
  dsimp only
  split
  · rw [pointerSize_extend, pointerSize_extend]
    rfl
  · rw [pointerSize_extend]
    rfl

/-- A size is looked up without the blanks at either end. -/
theorem sizeOfChars?_congr (t : TypeTable) {signature signature' : List Char}
    (h : Text.trim signature = Text.trim signature') :
    t.sizeOfChars? signature = t.sizeOfChars? signature' := by
  rw [sizeOfChars?, sizeOfChars?, h]

/-- A type that was added has the size it was added with, where its name is neither a pointer nor
has blanks around it. -/
theorem sizeOf?_add_self (t : TypeTable) {name : String} (size : Nat)
    (htrim : Text.trim name.toList = name.toList)
    (hstar : Signature.stripPointer? name.toList = none) :
    (t.add name size).sizeOf? name = some size := by
  have hlookup : (t.add name size).sizes[name]? = some size := Std.ExtTreeMap.getElem?_insert_self
  rw [sizeOf?, sizeOfChars?, htrim, hstar]
  simp only [Option.isSome_none, Bool.false_eq_true, if_false, String.ofList_toList, hlookup]

/-- **A star makes a pointer.** What a pointer points to, whose signature is that of a type with a
star behind it, has the size of the type. -/
theorem exists_baseSignature? (t : TypeTable) (signature : String) :
    ∃ base, baseSignature? (signature ++ "*") = some base ∧
      t.sizeOf? base = t.sizeOf? signature := by
  refine ⟨String.ofList (Text.trimEnd signature.toList), ?_, ?_⟩
  · unfold baseSignature?
    rw [String.toList_append, show "*".toList = ['*'] from rfl, Signature.stripPointer?_star]
    rfl
  · unfold sizeOf?
    rw [String.toList_ofList]
    exact t.sizeOfChars?_congr (Text.trim_trimEnd _)

end TypeTable

end RoutineEmulator
