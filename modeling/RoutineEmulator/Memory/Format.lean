import RoutineEmulator.Json.Decoding
import RoutineEmulator.Memory.Words
/-!
The JSON format of byte orders.
-/

namespace RoutineEmulator.ByteOrder

def toJson : ByteOrder → Json
  | little => .text "little"
  | big => .text "big"

def named? : String → Option ByteOrder
  | "little" => some little
  | "big" => some big
  | _ => none

def decode (depth : Nat) (value : Json) : Option ByteOrder :=
  match Json.tagged? value with
  | some (.bare name) => named? name
  | some (.carrying name .null) => if depth = 0 then none else named? name
  | _ => none

end RoutineEmulator.ByteOrder
