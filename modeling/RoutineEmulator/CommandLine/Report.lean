import RoutineEmulator.Emulation.HandlerChain
import RoutineEmulator.Json.Writer
/-!
The report of a chain on the command line, as text and as JSON. Addresses are hexadecimal in both.
-/

namespace RoutineEmulator.HandlerChain

/-- A 64-bit word in a report. -/
def wordText (w : UInt64) : String :=
  Text.hexAddress w.toNat

/-! ## Text -/

/-- The line for a round. -/
def Round.line (number : Nat) (round : Round) : String :=
  "  " ++ toString number ++ ": " ++ wordText round.address ++ "  " ++ round.routine ++ "  ("
    ++ toString round.trace.size ++ " statements)"
    ++ round.trace.nextHandler.elim "" (" -> " ++ wordText ·)

/-- The report as text. The log follows unless it went to a file or nothing was logged. -/
def Report.text (report : Report) (log : OutputLog) (logInFile : Bool) : String :=
  OutputLog.textOf
      (["Emulation Results", "=================",
        "Rounds: " ++ toString report.rounds.size, "Stop reason: " ++ report.stop.word]
        ++ report.rounds.toList.zipIdx.map (fun (round, n) => round.line n)
        ++ report.error.toList.map ("Error: " ++ ·.message))
    ++ (if logInFile || log.isEmpty then "" else "\nLog:\n" ++ log.text)

/-! ## JSON -/

def Round.toJson (round : Round) : Json :=
  .record
    [("address", .text (wordText round.address)), ("routine", .text round.routine),
     ("statements", .list .text round.trace.statements.toList),
     ("return_value", .option (.text <| wordText ·) round.trace.returnValue),
     ("next_handler", .option (.text <| wordText ·) round.trace.nextHandler)]

/-- The report and the whole log as one document. -/
def Report.toJson (report : Report) (log : OutputLog) : Json :=
  .record
    [("rounds", .list Round.toJson report.rounds.toList), ("stop", .text report.stop.word),
     ("error", .option (.text ·.message) report.error), ("log", .text log.text)]

end RoutineEmulator.HandlerChain
