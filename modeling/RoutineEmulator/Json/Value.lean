/-!
JSON values as the document formats of this library see them.

No field of a format holds a number with a fraction or an exponent, or a text with half of a
surrogate pair, but members that a format does not name may. The tree keeps the class of such a
value and not its content.
-/

namespace RoutineEmulator

/-- A JSON value. Members of an object stay in document order, repeated keys included. -/
inductive Json where
  | null
  | bool (value : Bool)
  | int (value : Int)
  /-- A number written with a fraction or an exponent, or as `-0`. -/
  | decimal
  /-- A text; none when an escape in it names half of a surrogate pair. -/
  | str (text : Option String)
  | arr (items : List Json)
  | obj (members : List (Option String × Json))
  deriving Repr, Inhabited

namespace Json

/-- A text value. -/
def text (s : String) : Json := .str (some s)

/-- A natural number. -/
def nat (n : Nat) : Json := .int n

/-- An object with the given members. -/
def record (members : List (String × Json)) : Json :=
  .obj (members.map fun (key, value) => (some key, value))

/-- The value, or `null` for none. -/
def option (encode : α → Json) : Option α → Json
  | none => .null
  | some a => encode a

/-- An array of encoded items. -/
def list (encode : α → Json) (items : List α) : Json :=
  .arr (items.map encode)

/-- An object with one member, the written form of a variant that carries data. -/
def variant (tag : String) (body : Json) : Json :=
  .obj [(some tag, body)]

end Json

end RoutineEmulator
