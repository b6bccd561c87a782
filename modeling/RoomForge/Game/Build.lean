import RoomForge.Game.Disk
import RoomForge.Game.Load
import RoomForge.Resource.Layout
import RoomForge.Room.Session

set_option autoImplicit false

/-! # Building a game

A build loads a game, compiles its rooms and writes the game file (specification, sections 2 and
4.5). Files are only touched when every room has compiled: first the missing directories above the
game file are made, then the rooms are packed, and last the game file is written.

The directories come before the packing, so a game that cannot be packed may leave new directories
behind, but no file; `Proofs.Builds` has both. Storing goes through the operations of a `Disk`, and
the format of descriptors is a parameter.
-/

namespace RoomForge.Game

open RoomForge.Resource RoomForge.Room

/-- Compiles one more room of a game, behind those in `done` (last first). -/
def compileNext : Session × List RoomForge.Room → Source →
    Report Failure (Session × List RoomForge.Room)
  | (session, done), source => do
    let (session, report) := session.compile source
    let room ← (report.mapError fun e => { cause := .compile e }).doing
      (.compilingRoom source.name)
    if !room.warnings.isEmpty then
      .say .warn ("Room `" ++ source.name ++ "` compiled with " ++
        toString room.warnings.length ++ " warning(s)")
    return (session, room :: done)

/-- Compiles the rooms of a game, up to the first that fails. -/
def compileGame (sources : List Source) : Report Failure (List RoomForge.Room) := do
  let (_, done) ← .fold compileNext ({}, []) sources
  return done.reverse

/-- Loads a game and compiles its rooms. -/
def prepare (format : Format) (input : Path) : Loading (List RoomForge.Room) := do
  let sources ← (loadGame format input).doing (.loadingGame input)
  .ofReport ((compileGame sources).doing .compilingRooms)

/-- The directory of a path, unless it is the working directory. -/
def directoryOf? (path : Path) : Option Path :=
  path.parent?.filter fun directory => !directory.text.isEmpty

section Store

variable {m : Type → Type} [Monad m]

/-- Makes the directory of the game file. -/
def makeRoom (disk : Disk m) (output : Path) : m (Report Failure Unit) := do
  match directoryOf? output with
  | none => return pure ()
  | some directory =>
    let result ← disk.makeDirectories directory
    return .ofExcept (result.mapError fun e => { doing := [.creating directory], cause := .disk e })

/-- Packs rooms and writes the game file. -/
def writeGame (disk : Disk m) (output : Path) (rooms : List RoomForge.Room) :
    m (Report Failure Unit) := do
  let packed := gameBytes rooms
  match packed.result with
  | .error failure => return ⟨packed.log, .error failure⟩
  | .ok bytes =>
    match ← disk.write output bytes with
    | .error e => return ⟨packed.log, .error { doing := [.writing output], cause := .disk e }⟩
    | .ok () =>
      let text := "Wrote " ++ toString bytes.length ++ " bytes to " ++ output.text
      return ⟨packed.log ++ [⟨.info, text⟩], .ok ()⟩

/-- Stores compiled rooms as a game file. -/
def storeGame (disk : Disk m) (output : Path) (rooms : List RoomForge.Room) :
    m (Report Failure Unit) := do
  let made ← makeRoom disk output
  match made.result with
  | .error failure => return ⟨made.log, .error failure⟩
  | .ok () =>
    let written ← writeGame disk output rooms
    return made >>= fun () => written.doing .writingResources

end Store

/-- Builds the game in the directory `input` into the file `output`: how that ends, and the files
afterwards. -/
def build (format : Format) (tree : FileTree) (input output : Path) :
    Report Failure Unit × FileTree :=
  let prepared := (prepare format input).run tree
  match prepared.result with
  | .error failure => (⟨prepared.log, .error failure⟩, tree)
  | .ok rooms =>
    let (stored, tree) := storeGame FileTree.disk output rooms tree
    (⟨prepared.log ++ stored.log, stored.result⟩, tree)

end RoomForge.Game
