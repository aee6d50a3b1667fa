import RoutineEmulator.CommandLine.Options
import RoutineEmulator.CommandLine.Report
import RoutineEmulator.Image
/-!
The program as a function: from its words and the files that it reads to its exit code, its two
outputs and the log file that it leaves.

A log file that cannot be written ends the chain after the first round that logs something, as a
fault of that round.
-/

namespace RoutineEmulator.CommandLine

/-- The files that a run meets. -/
structure Files where
  /-- The content of a file, or why it cannot be read. -/
  read : String → Except String (List UInt8)
  /-- Why the log file cannot be written, if it cannot. -/
  logRefusal : Option String := none

/-- What ends a run early: what failed, and why. -/
structure Failure where
  context : String
  cause : Option String

/-- The text with four blanks in front of each of its lines. -/
def indentLines (text : String) : String :=
  let blanks := "    "
  blanks ++ String.ofList
    (text.toList.flatMap fun c => if c = '\n' then c :: blanks.toList else [c])

/-- The text of a failure. Its cause is indented line by line, since a name in it may hold line
breaks; what failed is not. -/
def Failure.text (failure : Failure) : String :=
  "Error: " ++ failure.context ++ "\n"
    ++ failure.cause.elim "" fun cause => "\nCaused by:\n" ++ indentLines cause ++ "\n"

/-- What a run leaves. -/
structure Result where
  code : UInt8
  output : String := ""
  errors : String := ""
  /-- The log file, where one was asked for and the chain ran. -/
  file : Option LogFile := none

/-- The value, or a failure with its cause. -/
def orFail (context : String) (message : ε → String) : Except ε α → Except Failure α
  | .ok a => .ok a
  | .error e => .error { context, cause := some (message e) }

/-! ## Setting up -/

/-- The text of a file that must be UTF-8. -/
def readText (files : Files) (path : String) : Except String String := do
  let bytes ← files.read path
  match String.fromUTF8? ⟨bytes.toArray⟩ with
  | some text => .ok text
  | none => .error "stream did not contain valid UTF-8"

/-- Reads and decodes the program image. -/
def loadImage (files : Files) (path : String) : Except Failure ProgramImage := do
  let document ← orFail ("Failed to read image " ++ path) id (readText files path)
  match ProgramImage.decodeText? document with
  | some image => .ok image
  | none => .error { context := "Failed to parse image " ++ path, cause := none }

/-- Reads a dump, where both its file and its address are given. -/
def loadDump (files : Files) (what : String) (path : Option String) (address : Option UInt64)
    (basePointer : Option UInt64) : Except Failure (Option MemoryDump) :=
  match path, address with
  | some path, some address => do
    let bytes ← orFail ("Failed to read " ++ what ++ " dump " ++ path) id (files.read path)
    return some { address, bytes, basePointer }
  | _, _ => .ok none

/-- The frame base where no dump gives one. -/
def defaultFrameBase : UInt64 := 0x7fffffffdf90

/-- The machine at the start: the memory of the image with the dumps in it, and a stack. -/
def setUp (files : Files) (options : Options) (image : ProgramImage) : Except Failure Machine := do
  let memory ← match image.memory with
    | .ok memory => pure memory
    | .error e => throw { context := e.context, cause := some e.cause }
  let stack ← loadDump files "stack" options.stackDump options.stackAddress options.stackPointer
  let heap ← loadDump files "heap" options.heapDump options.heapAddress none
  let machine ← orFail "Failed to map memory dumps" (·.message)
    (Machine.ofDumps image.typeTable memory stack heap)
  let machine := { machine with pointerSize := image.pointerSize }
  let machine :=
    if (machine.register? Register.rbp).isSome then machine
    else machine.setRegister Register.rbp defaultFrameBase
  let grown ← orFail "Failed to allocate stack space" (·.message) machine.allocateStackSpace
  return grown.getD machine

/-! ## Running -/

/-- How the chain is followed. With stack machine handlers the log holds what they do, in place of
the statements. -/
def chainSettings (options : Options) : HandlerChain.Settings where
  emulator := { maxSteps := options.maxSteps, logTrace := !options.stackMachine }
  tracerMode := options.tracer
  maxRounds := options.maxRounds

/-- The simulators of a run, the first one asked first. -/
def simulators (options : Options) : List Simulator :=
  if options.stackMachine then [.stackMachine {}, .libc {}] else [.libc {}]

/-- What a finished chain leaves. -/
def report (options : Options) (report : HandlerChain.Report) (log : OutputLog)
    (file : Option LogFile) : Result :=
  let output :=
    if options.json then (report.toJson log).indented ++ "\n"
    else report.text log options.log.isSome
  match report.error with
  | none => { code := 0, output, file }
  | some e =>
    let context := "Emulation stopped after " ++ toString report.rounds.size ++ " rounds"
    { code := 1, output, errors := Failure.text ⟨context, some e.message⟩, file }

/-- Runs the program. -/
def run (files : Files) (options : Options) : Result :=
  let prepared : Except Failure (ProgramImage × Machine) := do
    let image ← loadImage files options.image
    return (image, ← setUp files options image)
  match prepared with
  | .error failure => { code := 1, errors := failure.text }
  | .ok (image, machine) =>
    let file : Option LogFile :=
      options.log.map fun path => { path, refusal := fun _ => files.logRefusal }
    let result := HandlerChain.run (chainSettings options) image.routineAt? options.first
      { own := simulators options, machine } file
    match result.report with
    | some chain => report options chain result.session.log result.file
    | none => { code := 1, errors := Failure.text ⟨"Emulation did not end", none⟩ }

/-- The exit code of a usage error. -/
def usageError : Result where
  code := 2
  errors := "usage: <image> --rtn <address> [options]\n"

/-- Runs the program on the words of a command line. -/
def runWords (files : Files) (args : List String) : Result :=
  match Options.parse? args with
  | some options => run files options
  | none => usageError

end RoutineEmulator.CommandLine
