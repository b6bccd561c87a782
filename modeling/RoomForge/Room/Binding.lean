import Std.Data.TreeSet
import RoomForge.Log
import RoomForge.Room.Basic
import RoomForge.Script.Parser

set_option autoImplicit false

/-! # The roles of a room's functions

The binding pass (specification, section 4.3). A function named `entry` or `exit` runs when the
player enters or leaves the room, one named after an object is that object's verb, and the others
are the room's own, numbered from `firstNumber` on unless they are inlined.

The section says nothing of the end of the numbers. The counter goes on as soon as a function has
got its number, so it never passes the last word, which no function gets: `Bindings.addFree` ends
the run there. `Proofs.Binding` says what the pass leaves behind and `Proofs.Numbering` what the
numbers are.
-/

namespace RoomForge.Room

open RoomForge.Code RoomForge.Script

/-- The role of a function in its room. -/
inductive Role where
  | entry
  | exit
  /-- The verb of the object at `index`. -/
  | verb (index : Nat)
  | free
  deriving DecidableEq, Repr, Inhabited

/-- The role that a name gives. -/
def Role.ofName (name : String) (objects : List Object) : Role :=
  if name = "entry" then .entry
  else if name = "exit" then .exit
  else
    match objects.findIdx? fun object => object.verbName == name with
    | some index => .verb index
    | none => .free

/-- The role of a function. One with a role of its own can't be inlined. -/
def classify (routine : Routine) (objects : List Object) : Except CompileError Role :=
  let role := Role.ofName routine.name objects
  if role ≠ .free ∧ routine.isInlined then .error (.reservedInlined routine.name) else .ok role

/-- The number of a room's first function. Lower numbers belong to the engine. -/
def firstNumber : UInt16 := 200

/-- The largest word, behind which there is no number to count on to. -/
def lastWord : UInt16 := 65535

/-- What the scripts read so far give a room. -/
structure Bindings where
  /-- The room's objects, with the verbs read so far. -/
  objects : List Object
  constants : Array Constant := #[]
  entry : Option Routine := none
  exit : Option Routine := none
  routines : Array Routine := #[]
  /-- The names of all functions so far. -/
  names : Std.TreeSet String := {}
  /-- The number of the next function that gets one. -/
  next : UInt16 := firstNumber

namespace Bindings

/-- Adds a function without a role of its own. The counter goes on as soon as a function has its
number, so the run ends with the function that would get the last word. -/
def addFree (bindings : Bindings) (routine : Routine) : Except CompileError Bindings :=
  if routine.isInlined then .ok { bindings with routines := bindings.routines.push routine }
  else if bindings.next = lastWord then .error (.outOfNumbers routine.name)
  else
    .ok { bindings with
      routines := bindings.routines.push { routine with number := some bindings.next }
      next := bindings.next + 1 }

/-- Gives a function its place in the room. -/
def addRoutine (bindings : Bindings) (routine : Routine) : Report CompileError Bindings :=
  if bindings.names.contains routine.name then .fail (.duplicate routine.name)
  else
    let bindings := { bindings with names := bindings.names.insert routine.name }
    match classify routine bindings.objects with
    | .error e => .fail e
    | .ok .entry => pure { bindings with entry := some routine }
    | .ok .exit => pure { bindings with exit := some routine }
    | .ok (.verb index) => do
      let name := (bindings.objects[index]?.map (·.name)).getD ""
      .say .debug s!"Attaching verb to object `{name}`"
      pure { bindings with
        objects := bindings.objects.modify index fun object =>
          { object with verb := some routine } }
    | .ok .free => .ofExcept (bindings.addFree routine)

/-- Reads a script and gives its functions their places. -/
def addScript (bindings : Bindings) (source : ScriptSource) : Report CompileError Bindings := do
  .say .debug ("Parsing `" ++ source.name ++ "`...")
  match parse source.text with
  | .error e => .fail (.malformed source.name e)
  | .ok script =>
    let bindings := { bindings with
      constants := bindings.constants ++ script.constants.toArray }
    .fold addRoutine bindings script.routines

end Bindings

/-- Objects without a verb get an empty one. -/
def completeVerb (object : Object) : Report CompileError Object :=
  match object.verb with
  | some _ => pure object
  | none => do
    .say .debug ("Object `" ++ object.name ++ "` has no verb, using an empty one")
    pure { object with verb := some (.stub object.verbName) }

end RoomForge.Room
