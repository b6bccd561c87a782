import RoomForge.Game.Build
import RoomForge.Game.Decoder

set_option autoImplicit false

/-! # The command line

The arguments are a game directory and the game file to write, with flags anywhere between them
(specification, section 6.4). Short flags can be bundled; behind `--` every argument is a path.

A run that ends on the spot, which only a room with too many functions brings about, has a status of
its own and no text. Messages go through `shown`, which keeps those of the level asked for (section
8).
-/

namespace RoomForge.CommandLine

open RoomForge.Game

/-- What a run is asked to do. -/
structure Options where
  input : Path
  output : Path
  /-- How often more output was asked for. -/
  verbose : UInt8
  /-- Whether only errors are reported. -/
  quiet : Bool
  deriving DecidableEq, Repr, Inhabited

/-- The least important messages that are shown. -/
def Options.level (options : Options) : Level :=
  if options.quiet then .error
  else if options.verbose = 0 then .warn
  else if options.verbose = 1 then .info
  else .debug

/-- Why arguments don't start a build. -/
inductive Halt where
  /-- Help was asked for. -/
  | help
  /-- The version was asked for. -/
  | version
  | missingArgument
  /-- Flags that exclude each other, or one that is repeated and may not be. -/
  | conflict
  | unknownArgument
  /-- An empty path. -/
  | emptyPath
  /-- A value for a flag that takes none. -/
  | surplusValue
  deriving DecidableEq, Repr, Inhabited

/-- The status that a halted run ends with. -/
def Halt.exitCode : Halt → UInt8
  | help | version => 0
  | _ => 2

/-- The flags. -/
inductive Flag where
  | verbose
  | quiet
  | help
  | version
  deriving DecidableEq, Repr, Inhabited

namespace Flag

/-- The flag of a single letter. -/
def ofLetter? : Char → Option Flag
  | 'v' => some verbose
  | 'q' => some quiet
  | 'h' => some help
  | 'V' => some version
  | _ => none

/-- The flag of a word. -/
def ofWord? : String → Option Flag
  | "verbose" => some verbose
  | "quiet" => some quiet
  | "help" => some help
  | "version" => some version
  | _ => none

end Flag

/-- What the arguments said so far. -/
structure Reading where
  /-- The paths that were checked, the last first. -/
  paths : List String := []
  /-- The last path, until an argument behind it is understood. -/
  pending : Option String := none
  verbose : UInt8 := 0
  quiet : Bool := false
  /-- Whether all arguments are paths from here on. -/
  plain : Bool := false
  deriving DecidableEq, Repr, Inhabited

namespace Reading

/-- How many paths were given. -/
def pathCount (reading : Reading) : Nat :=
  reading.paths.length + reading.pending.toList.length

/-- Checks the last path, which may not be empty. -/
def settle (reading : Reading) : Except Halt Reading :=
  match reading.pending with
  | none => .ok reading
  | some "" => .error .emptyPath
  | some path => .ok { reading with paths := path :: reading.paths, pending := none }

/-- One more time of asking for more output; the count stops at its largest value. -/
def louder (verbose : UInt8) : UInt8 :=
  if verbose = 255 then 255 else verbose + 1

/-- Takes a flag. -/
def flag (reading : Reading) (flag : Flag) : Except Halt Reading := do
  let reading ← reading.settle
  match flag with
  | .verbose => .ok { reading with verbose := louder reading.verbose }
  | .quiet => if reading.quiet then .error .conflict else .ok { reading with quiet := true }
  | .help => .error .help
  | .version => .error .version

/-- Takes a bundle of flags. -/
def letters (reading : Reading) : List Char → Except Halt Reading
  | [] => .ok reading
  | c :: rest =>
    match Flag.ofLetter? c with
    | none => .error .unknownArgument
    | some f => do
      let reading ← reading.flag f
      reading.letters rest

/-- Takes a flag that is written as a word, with a value if there is an equals sign. -/
def word (reading : Reading) (cs : List Char) : Except Halt Reading :=
  match Flag.ofWord? (String.ofList (cs.takeWhile (· ≠ '='))) with
  | none => .error .unknownArgument
  | some f => if '=' ∈ cs then .error .surplusValue else reading.flag f

/-- Takes a path. -/
def path (reading : Reading) (text : String) : Except Halt Reading :=
  if 2 ≤ reading.pathCount then .error .unknownArgument
  else do
    let reading ← reading.settle
    .ok { reading with pending := some text }

/-- Takes an argument. -/
def argument (reading : Reading) (text : String) : Except Halt Reading :=
  if reading.plain then reading.path text
  else
    match text.toList with
    | ['-', '-'] => .ok { reading with plain := true }
    | '-' :: '-' :: cs => reading.word cs
    | '-' :: c :: cs => reading.letters (c :: cs)
    | _ => reading.path text

/-- What all arguments ask for. -/
def finish (reading : Reading) : Except Halt Options := do
  let reading ← reading.settle
  if reading.quiet && reading.verbose != 0 then throw .conflict
  match reading.paths with
  | [output, input] => return ⟨⟨input⟩, ⟨output⟩, reading.verbose, reading.quiet⟩
  | _ => throw .missingArgument

end Reading

/-- Reads the arguments of a run. -/
def parse (args : List String) : Except Halt Options := do
  let reading ← args.foldlM Reading.argument {}
  reading.finish

/-- The messages that are shown at a level. -/
def shown (level : Level) (log : List Message) : List Message :=
  log.filter fun message => message.level.rank ≤ level.rank

/-- How a run ends. -/
structure Outcome where
  exitCode : UInt8
  /-- The messages that were shown. -/
  said : List Message
  /-- The text about a failure. -/
  complaint : String
  deriving DecidableEq, Repr, Inhabited

/-- How a run ends whose build went as reported. A run that was ended on the spot has a status of
its own and no text. -/
def Outcome.ofReport (level : Level) (report : Report Failure Unit) : Outcome :=
  let said := shown level report.log
  match report.result with
  | .ok () => ⟨0, said, ""⟩
  | .error failure => if failure.isFatal then ⟨101, said, ""⟩ else ⟨1, said, failure.report⟩

/-- Runs the program on a tree of files. -/
def run (tree : FileTree) (args : List String) : Except Halt Outcome × FileTree :=
  match parse args with
  | .error halt => (.error halt, tree)
  | .ok options =>
    let (report, tree) := build .json tree options.input options.output
    (.ok (.ofReport options.level report), tree)

end RoomForge.CommandLine
