import RoomForge.Code.Compile
import RoomForge.Room.Binding
import RoomForge.Room.Colors
import RoomForge.Room.Registry

set_option autoImplicit false

/-! # Compiling rooms

The room assembler (specification, section 4.4, steps 1 to 6). A session numbers the rooms of a game
and compiles each from its sources: its names are collected, its colors merged, its scripts read and
its functions compiled.

Codes are compiled into lists of their own, which do not say whose they are, and handed out when all
functions have compiled. `handOut_codes` and `handOut_verbCodes` in `Proofs.Assembly` say that each
function gets the code that was compiled from it. `assemble_eq_ok_iff` there is the one description
of an accepted room that all results about rooms start from.

A room takes its number even if it fails, and there are 255 numbers; the section mentions neither.
-/

namespace RoomForge.Room

open RoomForge.Code RoomForge.Script

/-- Compiles a function of a room. -/
def compileRoutine (room : Scope) (routine : Routine) : Report CompileError Bytes := do
  let listing ← .ofExcept (compileListing room routine)
  let code ← .ofExcept (encode routine.name listing.instrs)
  let ops := listing.instrs.length
  let size := code.length
  let locals := listing.locals
  .say .debug
    ("compiled `" ++ routine.name ++ s!"`: {ops} ops, {size} bytes, {locals} locals")
  return code

/-- Says what a room is warned about. -/
def warn (room : String) (warning : Warning) : Report CompileError Warning := do
  let level := match warning with
    | .paletteOverflow .. => Level.error
    | .missingResource _ | .missingFunction _ => Level.warn
  .say level ("room `" ++ room ++ "`: " ++ warning.message)
  return warning

/-- The function that a room needs: the one its scripts have, or an empty one and a warning. -/
def orStub (room name : String) (routine : Option Routine) :
    Report CompileError (Routine × List Warning) :=
  match routine with
  | some routine => pure (routine, [])
  | none => do
    let warning ← warn room (.missingFunction name)
    return (.stub name, [warning])

/-- The scripts of a room, read and bound. -/
structure Bound where
  constants : List Constant
  entry : Routine
  exit : Routine
  routines : List Routine
  objects : List Object
  warnings : List Warning

/-- Reads the scripts of a room and gives each function its place. -/
def bindScripts (room : String) (scripts : List ScriptSource) (objects : List Object) :
    Report CompileError Bound := do
  let noScripts ← if scripts.isEmpty then do
      let warning ← warn room (.missingResource "scripts")
      pure [warning]
    else pure []
  let bindings ← .fold Bindings.addScript { objects } scripts
  let (entry, noEntry) ← orStub room "entry" bindings.entry
  let (exit, noExit) ← orStub room "exit" bindings.exit
  let objects ← .each completeVerb bindings.objects
  return {
    constants := bindings.constants.toList
    entry
    exit
    routines := bindings.routines.toList
    objects
    warnings := noScripts ++ noEntry ++ noExit }

/-- Hands codes out, in order, to the things that have a place for one. -/
def handOut {α : Type} (place? : α → Option (Bytes → α)) : List α → List Bytes → List α
  | [], _ => []
  | things, [] => things
  | thing :: rest, code :: codes =>
    match place? thing with
    | none => thing :: handOut place? rest (code :: codes)
    | some put => put code :: handOut place? rest codes

/-- The place for the code of a function, which an inlined one does not have. -/
def codePlace? (routine : Routine) : Option (Bytes → Routine) :=
  if routine.isInlined then none else some fun code => { routine with code := some code }

/-- The place for the code of an object's verb. -/
def verbPlace? (object : Object) : Option (Bytes → Object) :=
  object.verb.map fun verb code => { object with verb := some { verb with code := some code } }

/-- Compiles the functions of a room, all under the same names, in the order free ones, entry, exit,
verbs. The codes are handed out when all functions have compiled. -/
def Bound.compile (bound : Bound) (scope : Scope) : Report CompileError Bound := do
  let codes ← .each (compileRoutine scope) (bound.routines.filter fun routine => !routine.isInlined)
  let entryCode ← compileRoutine scope bound.entry
  let exitCode ← compileRoutine scope bound.exit
  let verbCodes ← .each (compileRoutine scope) (bound.objects.filterMap (·.verb))
  return { bound with
    routines := handOut codePlace? bound.routines codes
    entry := { bound.entry with code := some entryCode }
    exit := { bound.exit with code := some exitCode }
    objects := handOut verbPlace? bound.objects verbCodes }

/-- Compiles the sources of a room that has the number `id`. -/
def assemble (id : UInt8) (source : Source) : Report CompileError Room := do
  let name := source.name
  .say .info s!"Room `{name}` gets id {id}"
  let registry ← Registry.ofResources source
  let merged := mergeColors source.palette source.objects source.costumes
  let overflow ← match merged.overflow with
    | none => pure []
    | some warning => do
      let warning ← warn name warning
      pure [warning]
  .say .info s!"Parsing room `{name}`..."
  let bound ← bindScripts name source.scripts merged.objects
  let registry ← .ofExcept (registry.insertAll bound.constants)
  let constants := registry.entries.toList
  .say .info s!"Compiling room `{name}`..."
  let bound ← bound.compile (Scope.ofRoom constants bound.routines)
  return {
    id
    name
    background := source.background
    masks := source.masks
    palette := merged.palette
    objects := bound.objects
    boxes := source.boxes
    costumes := merged.costumes
    constants
    entry := bound.entry
    exit := bound.exit
    routines := bound.routines
    warnings := overflow ++ bound.warnings }

/-- What the rooms of one game share. -/
structure Session where
  /-- The number of the next room; zero when all numbers are used. -/
  next : UInt8 := 1
  deriving DecidableEq, Repr, Inhabited

namespace Session

/-- Compiles a room. It takes its number even if it fails to compile. -/
def compile (session : Session) (source : Source) : Session × Report CompileError Room :=
  if session.next = 0 then (session, .fail .tooManyRooms)
  else (⟨session.next + 1⟩, assemble session.next source)

/-- Compiles rooms one after the other, going on after a failure. -/
def compileAll (session : Session) : List Source → List (Report CompileError Room)
  | [] => []
  | source :: rest =>
    let (session, report) := session.compile source
    report :: session.compileAll rest

end Session

end RoomForge.Room
