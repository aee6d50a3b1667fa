import RoutineEmulator.Emulation.Emulator
/-!
Following a chain of handlers: one routine is emulated per round, and the next-handler register
tells the routine of the next round.
-/

namespace RoutineEmulator

/-- A file that takes the log. -/
structure LogFile where
  path : String
  /-- Why the file does not take a text, where it does not. -/
  refusal : String → Option String := fun _ => none
  /-- The texts that were written, the last one first. -/
  texts : List String := []

namespace LogFile

/-- What the file holds: the text that was written last. -/
def content (file : LogFile) : Option String :=
  file.texts.head?

/-- All that was written, in order. -/
def written (file : LogFile) : String :=
  String.join file.texts.reverse

/-- Replaces the text of the file. -/
def write (text : String) (file : LogFile) : Except EmulationError LogFile :=
  match file.refusal text with
  | some cause => .error (.logSink (file.path ++ ": " ++ cause))
  | none => .ok { file with texts := text :: file.texts }

end LogFile

namespace HandlerChain

/-- How a chain is followed. -/
structure Settings where
  emulator : Emulator.Settings := {}
  /-- Whether the next handler is followed; otherwise only the first routine is emulated. -/
  tracerMode : Bool := true
  /-- The number of rounds that may be run; no limit for none. -/
  maxRounds : Option Nat := none

/-- Finds a routine by its address. -/
abbrev Provider := UInt64 → Option Routine

/-- The first routine of a list that has the address. -/
def Provider.ofList (routines : List Routine) : Provider := fun address =>
  routines.find? (·.address == address)

/-- Why a chain stops. -/
inductive Stop where
  /-- A round ended without a next handler. -/
  | noNextHandler
  /-- The next handler is not followed. -/
  | singleRound
  | maxRounds
  /-- A round, or writing the log after it, failed. -/
  | failed
  deriving Repr, DecidableEq

/-- The word for a stop in a report. -/
def Stop.word : Stop → String
  | noNextHandler => "NoNextHandler"
  | singleRound => "SingleRound"
  | maxRounds => "MaxRounds"
  | failed => "Failed"

/-- A completed round. -/
structure Round where
  address : UInt64
  routine : String
  trace : ExecutionTrace

/-- What a chain did: its completed rounds, and the error that ended it. -/
structure Report where
  rounds : Array Round
  stop : Stop
  error : Option EmulationError := none

namespace Report

/-- The addresses of the completed rounds. -/
def addresses (report : Report) : List UInt64 :=
  report.rounds.toList.map (·.address)

/-- The next handler of the last round. -/
def lastNextHandler (report : Report) : Option UInt64 :=
  report.rounds.back?.bind (·.trace.nextHandler)

def isSuccess (report : Report) : Bool :=
  report.error.isNone

end Report

/-- A chain at its end. The report is missing where a run without limits did not end. -/
structure Result where
  report : Option Report
  session : Session
  file : Option LogFile

/-- Writes the log to its file, if there is one and the log grew. -/
def flush (session : Session) (file : Option LogFile) :
    Except EmulationError (Session × Option LogFile) :=
  match file with
  | none => .ok (session, none)
  | some file =>
    match session.log.flush LogFile.write file with
    | .ok (_, log, file) => .ok ({ session with log }, some file)
    | .error e => .error e

/-- Emulates a routine. The next-handler register starts without a value. -/
def round (settings : Settings) (routine : Routine) (session : Session) :
    Emulator.Outcome × Session :=
  let machine := session.machine.clearRegister Register.nextHandler
  Emulator.emulate settings.emulator routine { session with machine }

/-- Ends the chain after a failing round. What the round logged is still written, and a failure to
write it is not reported. -/
def abandon (rounds : Array Round) (cause : EmulationError) (session : Session)
    (file : Option LogFile) : Result :=
  let (session, file) :=
    match flush session file with
    | .ok flushed => flushed
    | .error _ => (session, file)
  ⟨some { rounds, stop := .failed, error := some cause }, session, file⟩

/-- Runs rounds from an address on, at most so many. -/
def follow (settings : Settings) (provider : Provider) :
    Nat → UInt64 → Array Round → Session → Option LogFile → Result
  | 0, _, rounds, session, file =>
    ⟨settings.maxRounds.map fun _ => { rounds, stop := .maxRounds }, session, file⟩
  | left + 1, address, rounds, session, file =>
    match provider address with
    | none =>
      let place := "no routine at " ++ Text.hexAddress address.toNat
      abandon rounds (.missingEntryPoint place) session file
    | some routine =>
      match round settings routine session with
      | (.unfinished, session) => ⟨none, session, file⟩
      | (.failed e, session) => abandon rounds e session file
      | (.finished trace, session) =>
        let rounds := rounds.push { address, routine := routine.name, trace }
        match flush session file with
        | .error e => ⟨some { rounds, stop := .failed, error := some e }, session, file⟩
        | .ok (session, file) =>
          match trace.nextHandler with
          | none => ⟨some { rounds, stop := .noNextHandler }, session, file⟩
          | some next =>
            if settings.tracerMode then follow settings provider left next rounds session file
            else ⟨some { rounds, stop := .singleRound }, session, file⟩

/-- Follows the chain from its first address. -/
def run (settings : Settings) (provider : Provider) (first : UInt64) (session : Session)
    (file : Option LogFile) : Result :=
  follow settings provider (settings.maxRounds.getD Emulator.unlimited) first #[] session file

end HandlerChain

end RoutineEmulator
