import RoomForge.Picture.Palette
import RoomForge.Room.Basic

set_option autoImplicit false

/-! # Descriptors

What the files of a game directory other than its scripts say (specification, section 6.3). How they
say it is left to a `Format`: nothing that is known about loading depends on it.
-/

namespace RoomForge.Game

open RoomForge.Picture RoomForge.Room

/-- A color cycle, without its number. -/
structure CycleDescriptor where
  name : String
  first : UInt8
  last : UInt8
  delay : UInt16

/-- The colors of a room and their cycles. -/
structure PaletteDescriptor where
  colors : List Color := []
  cycles : List CycleDescriptor := []

/-- A walk box, without its number. -/
structure BoxDescriptor where
  name : String
  upperLeft : Point
  upperRight : Point
  lowerRight : Point
  lowerLeft : Point
  flags : UInt8
  scale : UInt8

/-- A room, without what its own directories hold. -/
structure RoomDescriptor where
  background : String
  masks : List String
  palette : PaletteDescriptor
  boxes : List BoxDescriptor

/-- An object, without its name. -/
structure ObjectDescriptor where
  id : UInt16
  x : Int16
  y : Int16
  images : List String

/-- An anim, without its number. -/
structure AnimDescriptor where
  name : String
  frames : List UInt8

/-- A costume, without its name. -/
structure CostumeDescriptor where
  id : UInt16
  colors : List Color
  frames : List String
  anims : List AnimDescriptor

/-- An image. -/
structure ImageDescriptor where
  width : UInt16
  height : UInt16
  colors : List Color
  pixels : List UInt8

/-- A mask. -/
structure MaskDescriptor where
  width : UInt16
  height : UInt16
  rows : List String

/-- How descriptors are written: what the text of each kind says, if it says anything. -/
structure Format where
  /-- The names that a manifest lists in its field `field`. -/
  manifest (field text : String) : Option (List String)
  room (text : String) : Option RoomDescriptor
  object (text : String) : Option ObjectDescriptor
  costume (text : String) : Option CostumeDescriptor
  image (text : String) : Option ImageDescriptor
  mask (text : String) : Option MaskDescriptor

end RoomForge.Game
