import RoutineEmulator.Json.Value
import RoutineEmulator.Text.Hexadecimal
/-!
Reading JSON text.

`Json.read?` accepts exactly the grammar of RFC 8259 values with blanks around them: no comma before
a closing bracket, no leading zero, no raw control character in a text, nothing after the value.
Nesting is not limited here; a format limits the nesting of the parts it decodes.
-/

namespace RoutineEmulator.Json

open Text (hexDigit?)

/-! ## Blanks and digits -/

/-- The four blanks that may stand between tokens. -/
def isSpace (c : Char) : Bool :=
  c = ' ' || c = '\n' || c = '\r' || c = '\t'

def skipSpace (input : List Char) : List Char :=
  input.dropWhile isSpace

/-- The value of a run of decimal digits. -/
def decimalValue (digits : List Char) : Nat :=
  digits.foldl (fun value c => 10 * value + (c.toNat - '0'.toNat)) 0

/-! ## Texts -/

/-- The four digits of a `\u` escape. -/
def readUnit : List Char → Option (Nat × List Char)
  | a :: b :: c :: d :: rest => do
    let a ← hexDigit? a
    let b ← hexDigit? b
    let c ← hexDigit? c
    let d ← hexDigit? d
    some (((a * 16 + b) * 16 + c) * 16 + d, rest)
  | _ => none

/-- The first unit of a surrogate pair. -/
def isHighSurrogate (unit : Nat) : Bool := 0xD800 ≤ unit && unit ≤ 0xDBFF

/-- The second unit of a surrogate pair. -/
def isLowSurrogate (unit : Nat) : Bool := 0xDC00 ≤ unit && unit ≤ 0xDFFF

/-- What follows a backslash: the character that the escape stands for, or none for half of a
surrogate pair. -/
def readEscape : List Char → Option (Option Char × List Char)
  | '"' :: rest => some (some '"', rest)
  | '\\' :: rest => some (some '\\', rest)
  | '/' :: rest => some (some '/', rest)
  | 'b' :: rest => some (some '\x08', rest)
  | 'f' :: rest => some (some '\x0c', rest)
  | 'n' :: rest => some (some '\n', rest)
  | 'r' :: rest => some (some '\r', rest)
  | 't' :: rest => some (some '\t', rest)
  | 'u' :: rest => do
    let (unit, rest) ← readUnit rest
    if isLowSurrogate unit then some (none, rest)
    else if isHighSurrogate unit then
      match rest with
      | '\\' :: 'u' :: more =>
        match readUnit more with
        | some (low, more) =>
          if isLowSurrogate low then
            some (some (Char.ofNat (0x10000 + (unit - 0xD800) * 0x400 + (low - 0xDC00))), more)
          else some (none, rest)
        | none => some (none, rest)
      | _ => some (none, rest)
    else some (some (Char.ofNat unit), rest)
  | _ => none

/-- The rest of a text after its opening quote. `done` holds the characters read so far, last
first, and `whole` tells that no escape named half of a surrogate pair. -/
def readText : Nat → List Char → Bool → List Char → Option (Option String × List Char)
  | 0, _, _, _ => none
  | _ + 1, _, _, [] => none
  | fuel + 1, done, whole, c :: rest =>
    if c = '"' then
      some (if whole then some (String.ofList done.reverse) else none, rest)
    else if c = '\\' then
      match readEscape rest with
      | some (some c, rest) => readText fuel (c :: done) whole rest
      | some (none, rest) => readText fuel done false rest
      | none => none
    else if c.toNat < 0x20 then none
    else readText fuel (c :: done) whole rest

/-! ## Numbers -/

/-- The digits at the front of the input, at least one. -/
def readDigits (input : List Char) : Option (List Char × List Char) :=
  match input.takeWhile Char.isDigit with
  | [] => none
  | digits => some (digits, input.dropWhile Char.isDigit)

/-- Skips a fraction, if there is one; tells whether there was. -/
def skipFraction : List Char → Option (Bool × List Char)
  | '.' :: rest => (readDigits rest).map fun (_, rest) => (true, rest)
  | rest => some (false, rest)

/-- Skips an exponent, if there is one; tells whether there was. -/
def skipExponent : List Char → Option (Bool × List Char)
  | c :: rest =>
    if c = 'e' ∨ c = 'E' then
      match rest with
      | '+' :: rest => (readDigits rest).map fun (_, rest) => (true, rest)
      | '-' :: rest => (readDigits rest).map fun (_, rest) => (true, rest)
      | rest => (readDigits rest).map fun (_, rest) => (true, rest)
    else some (false, c :: rest)
  | [] => some (false, [])

/-- A number behind its sign. -/
def readUnsigned (negative : Bool) (input : List Char) : Option (Json × List Char) := do
  let (digits, rest) ← readDigits input
  if digits.head? = some '0' ∧ 1 < digits.length then none
  else
    let (fraction, rest) ← skipFraction rest
    let (exponent, rest) ← skipExponent rest
    let value := decimalValue digits
    if fraction || exponent || (negative && value == 0) then some (.decimal, rest)
    else some (.int (if negative then -(value : Int) else value), rest)

/-- A number. -/
def readNumber : List Char → Option (Json × List Char)
  | '-' :: rest => readUnsigned true rest
  | input => readUnsigned false input

/-! ## Values -/

/-- A value that is neither an array nor an object. Any fuel above the length of its text is
enough. -/
def readScalar (fuel : Nat) : List Char → Option (Json × List Char)
  | 'n' :: 'u' :: 'l' :: 'l' :: rest => some (.null, rest)
  | 't' :: 'r' :: 'u' :: 'e' :: rest => some (.bool true, rest)
  | 'f' :: 'a' :: 'l' :: 's' :: 'e' :: rest => some (.bool false, rest)
  | '"' :: rest => (readText fuel [] true rest).map fun (s, rest) => (.str s, rest)
  | input => readNumber input

mutual

/-- A value at the front of the input. Any fuel above the length of its text is enough. -/
def readValue : Nat → List Char → Option (Json × List Char)
  | 0, _ => none
  | fuel + 1, '[' :: rest =>
    match skipSpace rest with
    | ']' :: rest => some (.arr [], rest)
    | rest => readItems fuel [] rest
  | fuel + 1, '{' :: rest =>
    match skipSpace rest with
    | '}' :: rest => some (.obj [], rest)
    | rest => readMembers fuel [] rest
  | fuel + 1, input => readScalar fuel input

/-- The items of an array up to its closing bracket; `done` holds those read so far, last first. -/
def readItems : Nat → List Json → List Char → Option (Json × List Char)
  | 0, _, _ => none
  | fuel + 1, done, input =>
    match readValue fuel (skipSpace input) with
    | none => none
    | some (item, rest) =>
      match skipSpace rest with
      | ',' :: rest => readItems fuel (item :: done) rest
      | ']' :: rest => some (.arr (item :: done).reverse, rest)
      | _ => none

/-- The members of an object up to its closing brace; `done` holds those read so far, last
first. -/
def readMembers : Nat → List (Option String × Json) → List Char → Option (Json × List Char)
  | 0, _, _ => none
  | fuel + 1, done, input =>
    match skipSpace input with
    | '"' :: rest =>
      match readText fuel [] true rest with
      | none => none
      | some (key, rest) =>
        match skipSpace rest with
        | ':' :: rest =>
          match readValue fuel (skipSpace rest) with
          | none => none
          | some (value, rest) =>
            match skipSpace rest with
            | ',' :: rest => readMembers fuel ((key, value) :: done) rest
            | '}' :: rest => some (.obj ((key, value) :: done).reverse, rest)
            | _ => none
        | _ => none
    | _ => none

end

/-- Reads a whole document. -/
def read? (input : String) : Option Json :=
  let input := input.toList
  match readValue (input.length + 1) (skipSpace input) with
  | some (value, rest) => if (skipSpace rest).isEmpty then some value else none
  | none => none

end RoutineEmulator.Json
