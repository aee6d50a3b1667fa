import RoutineEmulator.CommandLine.WorkingDirectory
/-!
The command line: reads the files that the options name, runs the program, writes the log file and
prints the outputs.
-/

namespace RoutineEmulator.CommandLine

/-- The wording of a file fault. -/
def faultText : IO.Error → String
  | .noFileOrDirectory .. => PathFault.missing.message
  | .permissionDenied .. => "Permission denied (os error 13)"
  | .inappropriateType _ code _ =>
    -- The code of a fault comes with either sign.
    if code = 20 ∨ 0 - code = 20 then PathFault.notDirectory.message
    else PathFault.isDirectory.message
  | .resourceExhausted .. => PathFault.full.message
  | e => toString e

/-- Reads the files, each with its content or its fault. -/
def readAll (paths : List String) : IO (List (String × Except String (List UInt8))) :=
  paths.mapM fun (path : String) => do
    match ← (IO.FS.readBinFile path).toBaseIO with
    | .ok bytes => return (path, .ok bytes.toList)
    | .error e => return (path, .error (faultText e))

/-- Writes all that a run wrote to its log file, in order; the fault if that fails. -/
def writeLog (result : Result) : IO (Option String) := do
  let some file := result.file | return none
  for text in file.texts.reverse do
    if let .error e ← (IO.FS.writeFile file.path text).toBaseIO then return some (faultText e)
  return none

/-- Runs the program. Where the log file refuses what a run wrote to it, the run that meets the
refusal counts. -/
def runFiles (options : Options) : IO Result := do
  let contents ← readAll options.inputs
  let read (path : String) : Except String (List UInt8) :=
    (contents.lookup path).getD (.error PathFault.missing.message)
  let result := run { read } options
  match ← writeLog result with
  | none => return result
  | some cause => return run { read, logRefusal := some cause } options

end RoutineEmulator.CommandLine

open RoutineEmulator.CommandLine in
def main (args : List String) : IO UInt32 := do
  let result ← match Options.parse? args with
    | some options => runFiles options
    | none => pure usageError
  IO.print result.output
  IO.eprint result.errors
  return result.code.toUInt32
