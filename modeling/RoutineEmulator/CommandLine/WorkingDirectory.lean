import RoutineEmulator.CommandLine.Program
/-!
A working directory as a value: the files in it, and what the paths of a command line mean there.
With it a run of the program needs no operating system.

A path is walked part by part, from the working directory or from the root. The directories above
the working directory, and those in the root, are known only to be there; a file can be added to
each. The answers are those that a Unix system gives to a program that reads a whole file or
replaces one.
-/

namespace RoutineEmulator.CommandLine

/-! ## Paths -/

/-- A directory that a path can lead to. -/
inductive Folder where
  /-- The directory so many levels above the working directory. -/
  | above (levels : Nat)
  | root
  /-- A directory in the root. -/
  | system (name : String)
  deriving Repr, DecidableEq

/-- Where a path leads: to a directory, or to what has a name in one, there or not. -/
inductive Place where
  | folder (folder : Folder)
  | entry (folder : Folder) (name : String)
  deriving Repr, DecidableEq

/-- The directories in the root. -/
def systemNames : List String :=
  ["dev", "etc", "home", "tmp", "usr", "var"]

namespace Folder

/-- The directory above; the root is its own. -/
def parent : Folder → Folder
  | above levels => above (levels + 1)
  | root | system _ => root

/-- Where a part of a path leads from a directory. An empty part leads nowhere else. -/
def step (folder : Folder) : String → Place
  | "" | "." => .folder folder
  | ".." => .folder folder.parent
  | part =>
    if folder = root ∧ part ∈ systemNames then .folder (system part) else .entry folder part

end Folder

/-- What stands in the place of a file, but keeps nothing. -/
inductive Device where
  /-- It takes every text. -/
  | sink
  /-- It takes no text. -/
  | full
  /-- The output of the program. -/
  | output
  /-- The error output of the program. -/
  | errors
  deriving Repr, DecidableEq

/-- The device in a place. -/
def Place.device? : Place → Option Device
  | .entry (.system "dev") name =>
    match name with
    | "null" | "zero" | "stdin" => some .sink
    | "full" => some .full
    | "stdout" => some .output
    | "stderr" => some .errors
    | _ => none
  | _ => none

/-- The parts of a path. -/
def parts (path : String) : List String :=
  path.splitOn "/"

/-- The directory that a path starts from. -/
def origin (path : String) : Folder :=
  if path.startsWith "/" then .root else .above 0

/-! ## Faults -/

/-- Why a file cannot be read or written. -/
inductive PathFault where
  | missing
  /-- A file stands where the path needs a directory. -/
  | notDirectory
  | isDirectory
  | full
  | nameTooLong
  deriving Repr, DecidableEq

/-- The wording of a fault. -/
def PathFault.message : PathFault → String
  | missing => "No such file or directory (os error 2)"
  | notDirectory => "Not a directory (os error 20)"
  | isDirectory => "Is a directory (os error 21)"
  | full => "No space left on device (os error 28)"
  | nameTooLong => "File name too long (os error 36)"

/-! ## Files -/

/-- The files of the working directory and those that were added elsewhere, by place. Of two in one
place the first one counts. -/
structure WorkingDirectory where
  files : List (Place × List UInt8) := []

namespace WorkingDirectory

/-- What a file holds. -/
def content? (d : WorkingDirectory) (place : Place) : Option (List UInt8) :=
  if place.device?.isSome then some [] else d.files.lookup place

/-- Follows a part of a path. A name has at most 255 bytes. -/
def enter (d : WorkingDirectory) : Place → String → Except PathFault Place
  | .folder folder, part =>
    if 255 < part.utf8ByteSize then .error .nameTooLong else .ok (folder.step part)
  | .entry folder name, _ =>
    .error (if (d.content? (.entry folder name)).isSome then .notDirectory else .missing)

/-- Follows the parts of a path. A path has less than 4096 bytes. -/
def walk (d : WorkingDirectory) (path : String) (parts : List String) : Except PathFault Place :=
  if 4096 ≤ path.utf8ByteSize then .error .nameTooLong
  else parts.foldlM d.enter (.folder (origin path))

/-- Reads a file. -/
def read (d : WorkingDirectory) (path : String) : Except PathFault (List UInt8) := do
  match ← d.walk path (parts path) with
  | .folder _ => .error .isDirectory
  | place => (d.content? place).elim (.error .missing) .ok

/-- The place where a text goes that is written to a path. A slash at the end asks for a directory,
which takes no text. -/
def target (d : WorkingDirectory) (path : String) : Except PathFault Place := do
  let named := ((parts path).reverse.dropWhile (·.isEmpty)).reverse
  match ← d.walk path named with
  | .folder _ => .error .isDirectory
  | place =>
    if path.endsWith "/" then .error .isDirectory
    else if place.device? = some .full then .error .full
    else .ok place

/-- Puts files into the working directory. -/
def ofFiles (files : List (String × List UInt8)) : WorkingDirectory where
  files := files.filterMap fun (path, bytes) =>
    (WorkingDirectory.target {} path).toOption.map (·, bytes)

end WorkingDirectory

/-! ## Running -/

/-- Runs the program in a working directory, and tells which files there are after the run. What is
written to an output of the program stands before what the program prints at its end. -/
def runIn (d : WorkingDirectory) (options : Options) : Result × WorkingDirectory :=
  let target := options.log.map d.target
  let files : Files :=
    { read := fun path => (d.read path).mapError (·.message)
      logRefusal := match target with
        | some (.error fault) => some fault.message
        | _ => none }
  let result := run files options
  match target, result.file with
  | some (.ok place), some file =>
    match place.device? with
    | some .output => ({ result with output := file.written ++ result.output }, d)
    | some .errors => ({ result with errors := file.written ++ result.errors }, d)
    | some _ => (result, d)
    | none =>
      let added := file.content.map fun text => (place, text.toUTF8.toList)
      (result, { d with files := added.toList ++ d.files })
  | _, _ => (result, d)

end RoutineEmulator.CommandLine
