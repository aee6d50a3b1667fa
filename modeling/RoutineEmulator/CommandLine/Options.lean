import RoutineEmulator.Text.Hexadecimal
/-!
The options of the command line.

Words are sorted first: positional words, flags, and options with their values. Nothing may be given
twice. Then the values are read. What cannot be sorted or read is a usage error, of which only the
fact is known.
-/

namespace RoutineEmulator.CommandLine

/-- What a command line asks for. -/
structure Options where
  /-- The file of the program image. -/
  image : String
  /-- The address of the first routine. -/
  first : UInt64
  /-- The file that takes the log. -/
  log : Option String := none
  /-- Whether the chain of handlers is followed. -/
  tracer : Bool := true
  /-- Whether stack machine handlers are simulated. -/
  stackMachine : Bool := false
  maxSteps : Option Nat := none
  maxRounds : Option Nat := none
  stackDump : Option String := none
  stackAddress : Option UInt64 := none
  /-- The frame base that belongs to the stack dump. -/
  stackPointer : Option UInt64 := none
  heapDump : Option String := none
  heapAddress : Option UInt64 := none
  /-- Whether the report is JSON. -/
  json : Bool := false
  deriving Repr, DecidableEq

/-! ## Sorting the words -/

/-- The names of the options that take a value. -/
def valueNames : List String :=
  ["rtn", "log", "max-steps", "max-rounds", "stack-dump", "stack-base-adr", "stack-base-ptr",
   "heap-dump", "heap-base-adr"]

/-- The names of the options that take none. -/
def flagNames : List String :=
  ["no-tracer", "stack-machine", "json", "verbose"]

/-- The flag that one letter after a single dash stands for. -/
def letterFlag? : Char → Option String
  | 'v' => some "verbose"
  | _ => none

/-- A word of the command line by its form. -/
inductive Word where
  | positional (text : String)
  /-- All words after this one are positional. -/
  | rest
  | flags (names : List String)
  /-- An option with its value, or one whose value is the next word. -/
  | option (name : String) (value : Option String)

/-- An option or a flag by the text behind its two dashes. -/
def longOption? (body : List Char) : Option Word :=
  let name := String.ofList (body.takeWhile (· ≠ '='))
  match body.dropWhile (· ≠ '=') with
  | [] =>
    if valueNames.contains name then some (.option name none)
    else if flagNames.contains name then some (.flags [name])
    else none
  | _ :: value =>
    if valueNames.contains name then some (.option name (some (String.ofList value))) else none

/-- The form of a word. A single dash is positional. -/
def Word.of? (text : String) : Option Word :=
  match text.toList with
  | ['-', '-'] => some .rest
  | '-' :: '-' :: body => longOption? body
  | '-' :: c :: letters => ((c :: letters).mapM letterFlag?).map .flags
  | _ => some (.positional text)

/-- Whether a word may be the value of the option before it. -/
def mayBeValue (text : String) : Bool :=
  match text.toList with
  | '-' :: _ :: _ => false
  | _ => true

/-- The words of a command line by their forms, each form in order. -/
structure Words where
  positional : List String := []
  flags : List String := []
  values : List (String × String) := []

/-- Sorts the words of a command line. -/
def sortWords? : List String → Option Words
  | [] => some {}
  | text :: texts => do
    match ← Word.of? text with
    | .positional text =>
      let words ← sortWords? texts
      return { words with positional := text :: words.positional }
    | .rest => return { positional := texts }
    | .flags names =>
      let words ← sortWords? texts
      return { words with flags := names ++ words.flags }
    | .option name (some value) =>
      let words ← sortWords? texts
      return { words with values := (name, value) :: words.values }
    | .option name none =>
      match texts with
      | [] => none
      | value :: texts =>
        if mayBeValue value then
          let words ← sortWords? texts
          return { words with values := (name, value) :: words.values }
        else none

/-! ## Reading the values -/

/-- A count in decimal digits, below 2^64. -/
def readCount? (text : String) : Option Nat :=
  let digits := match text.toList with
    | '+' :: digits => digits
    | digits => digits
  if digits.isEmpty || !digits.all Char.isDigit then none
  else
    let count := Nat.ofDigitChars 10 digits 0
    if count < UInt64.size then some count else none

/-- A file name. -/
def readPath? (text : String) : Option String :=
  if text.isEmpty then none else some text

/-- The value of an option, where it is given and can be read. -/
def valueOf (words : Words) (name : String) (read? : String → Option α) : Option (Option α) :=
  match words.values.lookup name with
  | none => some none
  | some text => (read? text).map some

/-- Whether a dump is given without the address that it is mapped at. -/
def homeless (dump : Option String) (address : Option UInt64) : Bool :=
  dump.isSome && address.isNone

/-- The options that a command line gives; none is a usage error. -/
def Options.parse? (args : List String) : Option Options := do
  let words ← sortWords? args
  guard words.flags.Nodup
  guard (words.values.map (·.1)).Nodup
  let [image] := words.positional | none
  let options : Options := {
    image := ← readPath? image
    first := ← (← valueOf words "rtn" Text.readWord?)
    log := ← valueOf words "log" readPath?
    tracer := !words.flags.contains "no-tracer"
    stackMachine := words.flags.contains "stack-machine"
    maxSteps := ← valueOf words "max-steps" readCount?
    maxRounds := ← valueOf words "max-rounds" readCount?
    stackDump := ← valueOf words "stack-dump" readPath?
    stackAddress := ← valueOf words "stack-base-adr" Text.readWord?
    stackPointer := ← valueOf words "stack-base-ptr" Text.readWord?
    heapDump := ← valueOf words "heap-dump" readPath?
    heapAddress := ← valueOf words "heap-base-adr" Text.readWord?
    json := words.flags.contains "json" }
  guard (!homeless options.stackDump options.stackAddress)
  guard (!homeless options.heapDump options.heapAddress)
  return options

/-- The files that a command line reads. -/
def Options.inputs (options : Options) : List String :=
  options.image :: (options.stackDump.toList ++ options.heapDump.toList)

end RoutineEmulator.CommandLine
