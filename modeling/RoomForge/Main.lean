import RoomForge.CommandLine

set_option autoImplicit false

/-! # The program

Carries out on the disk what the library decides. This is the only module with effects. It reads
files for a `Loading` program, gives `storeGame` the system's disk and shows what an `Outcome` says.
-/

namespace RoomForge.Program

open RoomForge.CommandLine RoomForge.Game

/-- What an error of the system means here. A directory in place of a file and a file in place of a
directory differ in the system's number only, which may be negated. -/
def diskError : IO.Error → DiskError
  | .noFileOrDirectory .. => .notFound
  | .alreadyExists .. => .alreadyExists
  | .inappropriateType _ code _ =>
    if code = 21 ∨ code = -21 then .isDirectory else .notDirectory
  | e => .other (toString e)

/-- Tries to do something on the disk. -/
def attempt {α : Type} (action : IO α) : IO (Except DiskError α) := do
  try
    return .ok (← action)
  catch e => return .error (diskError e)

/-- The bytes of a file. -/
def readFile (path : Path) : IO (Except DiskError Bytes) := do
  let answer ← attempt (IO.FS.readBinFile path.text)
  return answer.map fun bytes => bytes.toList

/-- Whether an attempt to read shows that there is something at a path. -/
def isThere {α : Type} : Except DiskError α → Bool
  | .error .notFound | .error .notDirectory => false
  | _ => true

/-- Whether an attempt to read shows that there is a directory at a path. -/
def isDirectory {α : Type} : Except DiskError α → Bool
  | .error .isDirectory => true
  | _ => false

/-- Carries a reading program out on the disk. -/
def load {α : Type} : Loading α → IO (Report Failure α)
  | .done result => return .ofExcept result
  | .say message rest => do
    let report ← load rest
    return ⟨message :: report.log, report.result⟩
  | .read path rest => do load (rest (← readFile path))
  | .find path rest => do load (rest (isThere (← readFile path)))

/-- The disk. -/
def disk : Disk IO where
  makeDirectory path := attempt (IO.FS.createDir path.text)
  hasDirectory path := return isDirectory (← readFile path)
  write path bytes := attempt (IO.FS.writeBinFile path.text ⟨bytes.toArray⟩)

/-- Builds a game on the disk. -/
def build (options : Options) : IO (Report Failure Unit) := do
  let prepared ← load (prepare .json options.input)
  match prepared.result with
  | .error failure => return ⟨prepared.log, .error failure⟩
  | .ok rooms =>
    let stored ← storeGame disk options.output rooms
    return ⟨prepared.log ++ stored.log, stored.result⟩

/-- How the program is called. -/
def usage : String :=
  "Usage: roomforge [OPTIONS] <INPUT> <OUTPUT>\n\n" ++
  "Arguments:\n" ++
  "  <INPUT>   Game directory containing game.json\n" ++
  "  <OUTPUT>  Resource file to write\n\n" ++
  "Options:\n" ++
  "  -v, --verbose...  More output per occurrence (-v info, -vv debug)\n" ++
  "  -q, --quiet       Only report errors\n" ++
  "  -h, --help        Print help\n" ++
  "  -V, --version     Print version\n"

/-- Says why there was no build. -/
def explain (halt : Halt) : IO Unit := do
  match halt with
  | .help => IO.print usage
  | .version => IO.println "roomforge 0.1.0"
  | .missingArgument => IO.eprint ("error: a required argument is missing\n\n" ++ usage)
  | .conflict => IO.eprint ("error: these arguments cannot be used together\n\n" ++ usage)
  | .unknownArgument => IO.eprint ("error: unexpected argument\n\n" ++ usage)
  | .emptyPath => IO.eprint ("error: a path is empty\n\n" ++ usage)
  | .surplusValue => IO.eprint ("error: a flag takes no value\n\n" ++ usage)

end RoomForge.Program

/-- Builds a game as the arguments say. -/
def main (args : List String) : IO UInt32 := do
  match RoomForge.CommandLine.parse args with
  | .error halt =>
    RoomForge.Program.explain halt
    return halt.exitCode.toUInt32
  | .ok options =>
    let report ← RoomForge.Program.build options
    let outcome := RoomForge.CommandLine.Outcome.ofReport options.level report
    for message in outcome.said do
      IO.println (message.level.label ++ " " ++ message.text)
    IO.eprint outcome.complaint
    return outcome.exitCode.toUInt32
