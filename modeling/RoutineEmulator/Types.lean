import RoutineEmulator.Text.Blank
import Std.Data.ExtTreeMap
/-!
Sizes of types, looked up by C signature.

A signature that ends in a star is a pointer, whatever stands before the star. Qualifiers in front
of a signature do not change a size. Blanks at either end never matter.
-/

namespace RoutineEmulator

/-! ## Signatures -/

namespace Signature

/-- The signature without its last star, or none where it does not end in one. -/
def stripPointer? (signature : List Char) : Option (List Char) :=
  match (Text.trimEnd signature).reverse with
  | '*' :: rest => some (Text.trimEnd rest.reverse)
  | _ => none

/-- The text behind a word at the front of a signature. -/
def behind? (word signature : List Char) : Option (List Char) :=
  if word.isPrefixOf signature then some (signature.drop word.length) else none

/-- The qualifiers that may stand before a type, each with the blank that ends it. -/
def qualifiers : List (List Char) :=
  [['c', 'o', 'n', 's', 't', ' '], ['v', 'o', 'l', 'a', 't', 'i', 'l', 'e', ' ']]

/-- The signature behind its first qualifier, or none where it starts with none. -/
def unqualified? (signature : List Char) : Option (List Char) :=
  qualifiers.findSome? (behind? · signature)

/-- A qualifier is not empty, so taking one off shortens the signature. -/
theorem length_unqualified?_lt {signature rest : List Char}
    (h : unqualified? signature = some rest) : rest.length < signature.length := by
  obtain ⟨word, hword, hbehind⟩ := List.exists_of_findSome?_eq_some h
  simp only [behind?, Option.ite_none_right_eq_some, Option.some.injEq] at hbehind
  obtain ⟨hfront, rfl⟩ := hbehind
  have hle := List.isPrefixOf_iff_prefix.1 hfront |>.length_le
  have hpos : 0 < word.length := by
    simp only [qualifiers, List.mem_cons, List.not_mem_nil, or_false] at hword
    rcases hword with rfl | rfl <;> simp
  simp only [List.length_drop]
  omega

end Signature

/-! ## The type table -/

/-- The sizes of named types, and the size of a pointer. -/
structure TypeTable where
  pointerSize : Nat := 8
  sizes : Std.ExtTreeMap String Nat := ∅

namespace TypeTable

/-- The built-in C types and the decompiler's aliases, with their sizes on a 64-bit machine. -/
def builtins : List (String × Nat) :=
  [("char", 1), ("signed char", 1), ("unsigned char", 1), ("bool", 1), ("_BOOL1", 1), ("_BYTE", 1),
   ("int8_t", 1), ("uint8_t", 1), ("short", 2), ("unsigned short", 2), ("_WORD", 2),
   ("int16_t", 2), ("uint16_t", 2), ("int", 4), ("unsigned int", 4), ("_DWORD", 4),
   ("int32_t", 4), ("uint32_t", 4), ("float", 4), ("long", 8), ("unsigned long", 8),
   ("long long", 8), ("unsigned long long", 8), ("_QWORD", 8), ("int64_t", 8), ("uint64_t", 8),
   ("size_t", 8), ("double", 8)]

/-- The built-in types whose size follows a pointer size of four. -/
def narrowBuiltins : List (String × Nat) :=
  [("long", 4), ("unsigned long", 4), ("size_t", 4)]

/-- A table without named types. -/
def empty (pointerSize : Nat) : TypeTable where
  pointerSize := pointerSize

/-- Names a type, in place of an earlier one of that name. -/
def add (t : TypeTable) (name : String) (size : Nat) : TypeTable :=
  { t with sizes := t.sizes.insert name size }

/-- Names several types, in order. -/
def extend (t : TypeTable) (types : List (String × Nat)) : TypeTable :=
  types.foldl (fun t (name, size) => t.add name size) t

/-- The built-in types on a machine whose pointers have this size. -/
def withPointerSize (pointerSize : Nat) : TypeTable :=
  let table := (empty pointerSize).extend builtins
  if pointerSize = 4 then table.extend narrowBuiltins else table

/-- The built-in types with pointers of eight bytes. -/
def standard : TypeTable :=
  withPointerSize 8

/-- The number of named types. -/
def size (t : TypeTable) : Nat :=
  t.sizes.size

/-- The size of the type with this signature: a pointer, a named type, or what stands behind a
qualifier. -/
def sizeOfChars? (t : TypeTable) (signature : List Char) : Option Nat :=
  let trimmed := Text.trim signature
  if (Signature.stripPointer? trimmed).isSome then some t.pointerSize
  else match t.sizes[String.ofList trimmed]? with
    | some size => some size
    | none =>
      match _h : Signature.unqualified? trimmed with
      | some rest => t.sizeOfChars? rest
      | none => none
  termination_by signature.length
  decreasing_by
    exact Nat.lt_of_lt_of_le (Signature.length_unqualified?_lt _h) (Text.length_trim_le signature)

/-- The size of the type with this signature, in bytes. -/
def sizeOf? (t : TypeTable) (signature : String) : Option Nat :=
  t.sizeOfChars? signature.toList

end TypeTable

/-- The signature of the type that a pointer signature points to. -/
def baseSignature? (signature : String) : Option String :=
  (Signature.stripPointer? signature.toList).map String.ofList

end RoutineEmulator
