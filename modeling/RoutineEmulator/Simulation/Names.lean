/-!
Names of callees as a decompiler prints them.
-/

namespace RoutineEmulator

/-- The name without the arrows of an import at its front and the underscores behind them. -/
def normalizeName (name : String) : String :=
  String.ofList ((name.toList.dropWhile (· = '→')).dropWhile (· = '_'))

end RoutineEmulator
