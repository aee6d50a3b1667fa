import RoutineEmulator.Routine.Arena
/-!
The registers that the engine itself knows.
-/

namespace RoutineEmulator.Register

/-- The register that holds the result of a call. -/
def rax : RegisterId := -65536

def rbx : RegisterId := -65728

/-- The register that holds the frame base, unless a frame layout names another. -/
def rbp : RegisterId := -65856

/-- The engine's own register for the address of the next handler, which a far jump or a computed
call sets. -/
def nextHandler : RegisterId := 1

/-- The name of a register in a dump. -/
def name (id : RegisterId) : String :=
  if id = rax then "rax"
  else if id = rbx then "rbx"
  else if id = rbp then "rbp"
  else if id = nextHandler then "next_handler"
  else "unknown"

end RoutineEmulator.Register
