import RoomForge.Code.Fault
import RoomForge.Picture.Image
import RoomForge.Picture.Mask
import RoomForge.Script.Tree

set_option autoImplicit false

/-! # Rooms

What a room is made of (specification, section 3): first as its sources, then compiled. A compiled
room owns all of its parts and shares nothing with other rooms. Its named constants are kept as a
list, in the order of the registry that they were entered in.
-/

namespace RoomForge.Room

open RoomForge.Code RoomForge.Picture RoomForge.Script

/-- A thing in a room that a player can act on. -/
structure Object where
  id : UInt16
  name : String
  x : Int16
  y : Int16
  images : List Image := []
  /-- What happens when the player acts on it. -/
  verb : Option Routine := none
  deriving Repr, Inhabited

/-- The name of the function that becomes an object's verb. -/
def Object.verbName (object : Object) : String :=
  object.name ++ "_verb"

/-- A sequence of a costume's frames. -/
structure Anim where
  id : UInt8
  name : String
  /-- Indices of frames. -/
  frames : List UInt8
  deriving DecidableEq, Repr, Inhabited

/-- The pictures of an actor. -/
structure Costume where
  id : UInt16
  name : String
  colors : List Color := []
  frames : List Image := []
  anims : List Anim := []
  /-- Where the costume's colors start in the palette of its room. -/
  base : UInt16 := 0
  deriving Repr, Inhabited

/-- A point of a room. -/
structure Point where
  x : Int16 := 0
  y : Int16 := 0
  deriving DecidableEq, Repr, Inhabited

/-- An area that actors can walk in, by its corners. -/
structure WalkBox where
  id : UInt8
  name : String
  upperLeft : Point
  upperRight : Point
  lowerRight : Point
  lowerLeft : Point
  flags : UInt8
  scale : UInt8
  deriving DecidableEq, Repr, Inhabited

/-- The corners of a walk box, clockwise from the upper left. -/
def WalkBox.corners (box : WalkBox) : List Point :=
  [box.upperLeft, box.upperRight, box.lowerRight, box.lowerLeft]

/-- A script by its name and text. -/
structure ScriptSource where
  name : String
  text : String
  deriving DecidableEq, Repr, Inhabited

/-- What a room is made of before it is compiled. -/
structure Source where
  name : String
  background : Image
  masks : List Mask := []
  palette : Palette := {}
  objects : List Object := []
  boxes : List WalkBox := []
  costumes : List Costume := []
  scripts : List ScriptSource := []
  deriving Repr, Inhabited

end RoomForge.Room

namespace RoomForge

open RoomForge.Code RoomForge.Picture RoomForge.Room RoomForge.Script

/-- A compiled room. -/
structure Room where
  id : UInt8
  name : String
  background : Image
  masks : List Mask
  palette : Palette
  objects : List Object
  boxes : List WalkBox
  costumes : List Costume
  /-- The named constants that the room's scripts can use. -/
  constants : List Constant
  entry : Routine
  exit : Routine
  /-- The functions without a role of their own, inlined ones included, in the order of the
  scripts. -/
  routines : List Routine
  warnings : List Warning
  deriving Repr, Inhabited

end RoomForge
