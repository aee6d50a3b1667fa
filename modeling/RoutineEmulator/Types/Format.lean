import RoutineEmulator.Json.Decoding
import RoutineEmulator.Types
/-!
The JSON format of type tables. A table holds the types that its document lists and no others.
-/

namespace RoutineEmulator.TypeTable

def decode : Nat → Json → Option TypeTable
  | 0, _ => none
  | depth + 1, value => do
    match ← Json.fields? ["pointer_size", "types"] value with
    | [pointerSize, types] =>
      let pointerSize ← pointerSize.withDefault 8 Json.size?
      let types ← types.withDefault [] (Json.mapOf Json.size? depth)
      return (empty pointerSize).extend types
    | _ => none

end RoutineEmulator.TypeTable
