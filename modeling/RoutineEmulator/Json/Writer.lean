import RoutineEmulator.Json.Value
/-!
Writing JSON text, on one line or indented.

Both writers push characters in front of the text written so far, last character first, and turn
the text round once at the end.
-/

namespace RoutineEmulator.Json

/-! ## Texts and numbers -/

/-- A character inside a text: the quote, the backslash and control characters are escaped, all
else stands for itself. -/
def escaped (c : Char) : List Char :=
  if c = '"' then ['\\', '"']
  else if c = '\\' then ['\\', '\\']
  else if c = '\x08' then ['\\', 'b']
  else if c = '\x0c' then ['\\', 'f']
  else if c = '\n' then ['\\', 'n']
  else if c = '\r' then ['\\', 'r']
  else if c = '\t' then ['\\', 't']
  else if c.toNat < 0x20 then
    ['\\', 'u', '0', '0', Nat.digitChar (c.toNat / 16), Nat.digitChar (c.toNat % 16)]
  else [c]

/-- A text between quotes. A text that held half of a surrogate pair is written as such a half. -/
def quoted : Option String → List Char
  | some s => '"' :: (s.toList.flatMap escaped ++ ['"'])
  | none => ['"', '\\', 'u', 'd', '8', '0', '0', '"']

/-- A number in decimal digits. -/
def digits : Int → List Char
  | .ofNat n => Nat.toDigits 10 n
  | .negSucc n => '-' :: Nat.toDigits 10 (n + 1)

/-- A value that is neither an array nor an object. -/
def scalar : Json → List Char
  | .null => ['n', 'u', 'l', 'l']
  | .bool true => ['t', 'r', 'u', 'e']
  | .bool false => ['f', 'a', 'l', 's', 'e']
  | .int n => digits n
  | .decimal => ['0', '.', '0']
  | .str s => quoted s
  | .arr _ => ['[', ']']
  | .obj _ => ['\x7b', '\x7d']

/-! ## On one line -/

mutual

/-- The value in front of what is written already. -/
def pushValue (done : List Char) : Json → List Char
  | .arr (item :: items) => pushItems (pushValue ('[' :: done) item) items
  | .obj ((key, value) :: members) =>
    pushMembers (pushValue (':' :: (quoted key).reverse ++ '\x7b' :: done) value) members
  | value => (scalar value).reverse ++ done

/-- The items after the first one, and the closing bracket. -/
def pushItems (done : List Char) : List Json → List Char
  | [] => ']' :: done
  | item :: items => pushItems (pushValue (',' :: done) item) items

/-- The members after the first one, and the closing brace. -/
def pushMembers (done : List Char) : List (Option String × Json) → List Char
  | [] => '\x7d' :: done
  | (key, value) :: members =>
    pushMembers (pushValue (':' :: (quoted key).reverse ++ ',' :: done) value) members

end

/-- The value on one line, without blanks between tokens. -/
def compact (value : Json) : String :=
  String.ofList (pushValue [] value).reverse

/-! ## Indented -/

/-- A line break and the blanks that open a line at this depth, in front of `done`. -/
def pushBreak (depth : Nat) (done : List Char) : List Char :=
  List.replicate (2 * depth) ' ' ++ '\n' :: done

mutual

/-- The value, indented, in front of what is written already. -/
def pushIndented (depth : Nat) (done : List Char) : Json → List Char
  | .arr (item :: items) =>
    pushIndentedItems depth (pushIndented (depth + 1) (pushBreak (depth + 1) ('[' :: done)) item)
      items
  | .obj ((key, value) :: members) =>
    pushIndentedMembers depth
      (pushIndented (depth + 1)
        (' ' :: ':' :: (quoted key).reverse ++ pushBreak (depth + 1) ('\x7b' :: done)) value)
      members
  | value => (scalar value).reverse ++ done

/-- The items after the first one, each on a line of its own, and the closing bracket. -/
def pushIndentedItems (depth : Nat) (done : List Char) : List Json → List Char
  | [] => ']' :: pushBreak depth done
  | item :: items =>
    pushIndentedItems depth (pushIndented (depth + 1) (pushBreak (depth + 1) (',' :: done)) item)
      items

/-- The members after the first one, each on a line of its own, and the closing brace. -/
def pushIndentedMembers (depth : Nat) (done : List Char) : List (Option String × Json) → List Char
  | [] => '\x7d' :: pushBreak depth done
  | (key, value) :: members =>
    pushIndentedMembers depth
      (pushIndented (depth + 1)
        (' ' :: ':' :: (quoted key).reverse ++ pushBreak (depth + 1) (',' :: done)) value)
      members

end

/-- The value over several lines, each level of nesting indented by two blanks. -/
def indented (value : Json) : String :=
  String.ofList (pushIndented 0 [] value).reverse

end RoutineEmulator.Json
