/-!
Hexadecimal text: numbers written with and without the `0x` marker, addresses read from a command
line, and byte strings written as two digits per byte.

Reading a byte string looks at the bytes of the text, so an odd count of bytes is refused first and
otherwise the first byte that is no digit is named with its position.
-/

namespace RoutineEmulator.Text

/-! ## Digits -/

/-- The value of one hexadecimal digit of either case. -/
def hexDigit? (c : Char) : Option Nat :=
  if '0' ≤ c ∧ c ≤ '9' then some (c.toNat - '0'.toNat)
  else if 'a' ≤ c ∧ c ≤ 'f' then some (c.toNat - 'a'.toNat + 10)
  else if 'A' ≤ c ∧ c ≤ 'F' then some (c.toNat - 'A'.toNat + 10)
  else none

/-- A number in lower-case hexadecimal digits, without leading zeros. -/
def hexLower (n : Nat) : String :=
  String.ofList (Nat.toDigits 16 n)

/-- A number in upper-case hexadecimal digits, without leading zeros. -/
def hexUpper (n : Nat) : String :=
  String.ofList ((Nat.toDigits 16 n).map Char.toUpper)

/-- An address in messages and reports: `0x` and lower-case digits. -/
def hexAddress (n : Nat) : String :=
  "0x" ++ hexLower n

/-- The value of a run of digits, most significant first; none for another character. -/
def hexValue? (digits : List Char) : Option Nat :=
  digits.foldl (fun value c => do
    let value ← value
    let digit ← hexDigit? c
    pure (16 * value + digit)) (some 0)

/-- A 64-bit word as given on a command line: an optional `0x`, an optional `+`, then at least one
digit and a value below 2^64. -/
def readWord? (text : String) : Option UInt64 := do
  let digits := match text.toList with
    | '0' :: 'x' :: rest => rest
    | other => other
  let digits := match digits with
    | '+' :: rest => rest
    | other => other
  if digits.isEmpty then none
  let value ← hexValue? digits
  if value < UInt64.size then some (UInt64.ofNat value) else none

/-! ## Byte strings -/

/-- Why a text is not a hexadecimal byte string. -/
inductive HexFault where
  /-- The text has an odd number of bytes. -/
  | oddLength
  /-- The byte at this position of the text is no hexadecimal digit. -/
  | badDigit (byte : UInt8) (position : Nat)
  deriving Repr, DecidableEq

/-- The two lower-case digits of a byte, high half first. -/
def hexByte (byte : UInt8) : List Char :=
  [Nat.digitChar (byte.toNat / 16), Nat.digitChar (byte.toNat % 16)]

/-- A byte string as two lower-case digits per byte. -/
def hexOfBytes (bytes : List UInt8) : String :=
  String.ofList (bytes.flatMap hexByte)

/-- Reads digit pairs; `position` counts the bytes of text before them. -/
def readDigitPairs (position : Nat) : List UInt8 → Except HexFault (List UInt8)
  | [] => .ok []
  | [_] => .error .oddLength
  | high :: low :: rest =>
    match hexDigit? (Char.ofNat high.toNat) with
    | none => .error (.badDigit high position)
    | some h =>
      match hexDigit? (Char.ofNat low.toNat) with
      | none => .error (.badDigit low (position + 1))
      | some l => do
        let bytes ← readDigitPairs (position + 2) rest
        .ok (UInt8.ofNat (16 * h + l) :: bytes)

/-- Reads a byte string from the UTF-8 bytes of a text. -/
def bytesOfHex (text : String) : Except HexFault (List UInt8) :=
  let digits := text.toUTF8.toList
  if digits.length % 2 = 1 then .error .oddLength else readDigitPairs 0 digits

/-! ## Messages -/

/-- A character of code below 256 between single quotes. The quote, the backslash and the
characters without a visible form are escaped. -/
def quotedLatin (byte : UInt8) : String :=
  let code := byte.toNat
  let body :=
    if code = 0x00 then "\\0"
    else if code = 0x09 then "\\t"
    else if code = 0x0A then "\\n"
    else if code = 0x0D then "\\r"
    else if code = 0x27 then "\\'"
    else if code = 0x5C then "\\\\"
    else if code < 0x20 ∨ (0x7F ≤ code ∧ code ≤ 0xA0) ∨ code = 0xAD then
      "\\u\x7b" ++ hexLower code ++ "\x7d"
    else String.singleton (Char.ofNat code)
  "'" ++ body ++ "'"

/-- The wording of a fault in a hexadecimal byte string. -/
def HexFault.message : HexFault → String
  | .oddLength => "Odd number of digits"
  | .badDigit byte position =>
    "Invalid character " ++ quotedLatin byte ++ " at position " ++ toString position

end RoutineEmulator.Text
