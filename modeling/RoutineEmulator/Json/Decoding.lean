import RoutineEmulator.Json.Value
/-!
Decoding JSON values into the types of a format.

A record may be written as an object or as the array of its fields in order; an object may lack
fields that have a default and hold members that the format does not name, an array may lack such
fields only at its end. A decoder that goes into an array or an object takes the nesting that is
still allowed there, and refuses to go deeper.
-/

namespace RoutineEmulator.Json

/-- The nesting of arrays and objects that a document may have. -/
def nestingLimit : Nat := 127

/-! ## Scalars -/

/-- A natural number of at most so many bits. -/
def nat? (bits : Nat) : Json → Option Nat
  | .int n => if 0 ≤ n ∧ n.toNat < 1 <<< bits then some n.toNat else none
  | _ => none

/-- A 32-bit word. -/
def word32? (value : Json) : Option UInt32 :=
  (nat? 32 value).map UInt32.ofNat

/-- A 64-bit word. -/
def word64? (value : Json) : Option UInt64 :=
  (nat? 64 value).map UInt64.ofNat

/-- A count of bytes or items. -/
def size? (value : Json) : Option Nat :=
  nat? 64 value

/-- A signed 32-bit number. -/
def int32? : Json → Option Int32
  | .int n => if Int32.minValue.toInt ≤ n ∧ n ≤ Int32.maxValue.toInt then some (Int32.ofInt n) else none
  | _ => none

/-- A signed 64-bit number. -/
def int64? : Json → Option Int64
  | .int n => if Int64.minValue.toInt ≤ n ∧ n ≤ Int64.maxValue.toInt then some (Int64.ofInt n) else none
  | _ => none

def bool? : Json → Option Bool
  | .bool b => some b
  | _ => none

def text? : Json → Option String
  | .str s => s
  | _ => none

/-- `null` for none, else a value of the decoder's type. -/
def nullable (decode : Json → Option α) : Json → Option (Option α)
  | .null => some none
  | value => (decode value).map some

/-! ## Arrays and maps -/

def items? : Json → Option (List Json)
  | .arr items => some items
  | _ => none

/-- The items of an array, each decoded with the nesting left inside it. -/
def listOf (decode : Nat → Json → Option α) : Nat → Json → Option (List α)
  | depth + 1, .arr items => items.mapM (decode depth)
  | _, _ => none

/-- The entries of an object that serves as a map, in document order. -/
def mapOf (decode : Json → Option α) : Nat → Json → Option (List (String × α))
  | _ + 1, .obj members =>
    members.mapM fun (key, value) => do
      let key ← key
      let value ← decode value
      some (key, value)
  | _, _ => none

/-! ## Variants -/

/-- A variant of a sum: its tag alone, or an object whose only member has the tag as key. -/
inductive Tagged where
  | bare (tag : String)
  | carrying (tag : String) (body : Json)

def tagged? : Json → Option Tagged
  | .str (some tag) => some (.bare tag)
  | .obj [(some tag, body)] => some (.carrying tag body)
  | _ => none

/-! ## Records -/

/-- What a written record holds for one of the fields of its format. -/
inductive Field where
  | given (value : Json)
  /-- The object has no member of this name. -/
  | absent
  /-- The array ends before this field. -/
  | cut
  deriving Inhabited

/-- The member of this name. Two members of one name are refused. -/
def member? (members : List (String × Json)) (name : String) : Option Field :=
  match members.filter (·.1 == name) with
  | [] => some .absent
  | [(_, value)] => some (.given value)
  | _ => none

/-- The fields of a record, in the order of `names`. Every key must be a whole text; members of
other names are ignored. -/
def fields? (names : List String) : Json → Option (List Field)
  | .obj members => do
    let members ← members.mapM fun (key, value) => key.map (·, value)
    names.mapM (member? members)
  | .arr items =>
    if items.length ≤ names.length then
      some (items.map .given ++ List.replicate (names.length - items.length) .cut)
    else none
  | _ => none

namespace Field

/-- A field that must be written. -/
def required (decode : Json → Option α) : Field → Option α
  | .given value => decode value
  | _ => none

/-- A field that stands for `fallback` when it is not written. -/
def withDefault (fallback : α) (decode : Json → Option α) : Field → Option α
  | .given value => decode value
  | _ => some fallback

/-- A field that is none when an object does not name it; in an array it must be written. -/
def optional (decode : Json → Option α) : Field → Option (Option α)
  | .given value => nullable decode value
  | .absent => some none
  | .cut => none

end Field

end RoutineEmulator.Json
