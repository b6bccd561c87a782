import RoomForge.Script.Tree

set_option autoImplicit false

/-! # What the engine provides

Names that every room's scripts can use: constants, variables and built-in functions (the engine
table of the specification, section 2). The table is data; nothing that is proved about scopes or
code depends on what it lists.
-/

namespace RoomForge.Code

open RoomForge.Script

/-- A function of the engine. -/
structure Builtin where
  name : String
  id : UInt8
  /-- How many arguments a call has. -/
  arity : Nat
  /-- Whether a call leaves a value. -/
  returns : Bool
  deriving DecidableEq, Repr, Inhabited

namespace Engine

/-- The engine's constants. -/
def constants : List Constant := [
  ⟨"FALSE", 0⟩,
  ⟨"TRUE", 1⟩,
  ⟨"VERB_WALK_TO", 1⟩,
  ⟨"VERB_LOOK_AT", 2⟩,
  ⟨"VERB_PICK_UP", 3⟩,
  ⟨"VERB_USE", 4⟩,
  ⟨"VERB_OPEN", 5⟩,
  ⟨"VERB_CLOSE", 6⟩,
  ⟨"VERB_PUSH", 7⟩,
  ⟨"VERB_PULL", 8⟩,
  ⟨"VERB_TALK_TO", 9⟩,
  ⟨"VERB_GIVE", 10⟩,
  ⟨"DIR_LEFT", 0⟩,
  ⟨"DIR_RIGHT", 1⟩,
  ⟨"DIR_DOWN", 2⟩,
  ⟨"DIR_UP", 3⟩]

/-- The engine's variables, which scripts can read and write. -/
def globals : List (String × UInt16) := [
  ("ego", 1),
  ("verb", 2),
  ("room", 3),
  ("object", 4),
  ("timer", 5),
  ("result", 6)]

/-- The engine's functions. -/
def builtins : List Builtin := [
  ⟨"print", 1, 1, false⟩,
  ⟨"say", 2, 2, false⟩,
  ⟨"delay", 3, 1, false⟩,
  ⟨"loadRoom", 4, 1, false⟩,
  ⟨"putActor", 5, 3, false⟩,
  ⟨"walkActor", 6, 3, false⟩,
  ⟨"setActorCostume", 7, 2, false⟩,
  ⟨"animateActor", 8, 2, false⟩,
  ⟨"setObjectState", 9, 2, false⟩,
  ⟨"getObjectState", 10, 1, true⟩,
  ⟨"cyclePalette", 11, 1, false⟩,
  ⟨"random", 12, 1, true⟩,
  ⟨"actorInBox", 13, 2, true⟩]

/-- The number of the variable `name`. -/
def global? (name : String) : Option UInt16 :=
  (globals.find? fun entry => entry.1 == name).map (·.2)

/-- The function `name`. -/
def builtin? (name : String) : Option Builtin :=
  builtins.find? fun builtin => builtin.name == name

end Engine

end RoomForge.Code
