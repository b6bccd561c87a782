import RoomForge.Failure
import RoomForge.Picture.Strip
import RoomForge.Room.Basic

set_option autoImplicit false

/-! # The layout of the game file

The block tree of section 4.5 of the specification. `LECF` holds a `LFLF` for each room, with the
room itself and its costumes. A room is its header `RMHD`, the color cycles `CYCL`, the palette
`CLUT`, the background and masks `RMIM`, for each object its images `OBIM` and its code `OBCD`, the
exit and entry code `EXCD` and `ENCD`, the room's numbered functions `LSCR` and the walk boxes
`BOXD`.

Counts that do not fit their field are refused, and so is a tag whose index has more than two
digits. The section speaks of neither.
-/

namespace RoomForge.Resource

open RoomForge.Picture RoomForge.Room RoomForge.Script

/-! ## Fields -/

/-- A count in one byte. -/
def countByte (tag : String) (count : Nat) : Except BlockError Bytes :=
  if count < 256 then .ok [UInt8.ofNat count] else .error (.tooMany tag count)

/-- A count in a word. -/
def countWord (tag : String) (count : Nat) : Except BlockError Bytes :=
  if count < 65536 then .ok (Bytes.word (UInt16.ofNat count)) else .error (.tooMany tag count)

/-- The code of a function; nothing for one that is not compiled. -/
def codeOf (routine : Routine) : Bytes :=
  routine.code.getD []

/-- A block of one payload, tagged with four characters. -/
def leaf (a b c d : Char) (bytes : Bytes) : Block :=
  .leaf (.ofChars a b c d) bytes

/-! ## The parts of a room -/

/-- The block of a mask: a part for each strip. -/
def maskBlock (mask : Mask) (index : Nat) : Except BlockError Block := do
  let tag ← Tag.indexed 'Z'.toUInt8 'P'.toUInt8 index
  return ⟨tag, .short, mask.toStrips.map .raw⟩

/-- The size of a room, and how much it has of what. -/
def headerBlock (room : RoomForge.Room) : Except BlockError Block := do
  let objects ← countWord "RMHD" room.objects.length
  let masks ← countByte "RMHD" room.masks.length
  return leaf 'R' 'M' 'H' 'D'
    (Bytes.word room.background.width ++ Bytes.word room.background.height ++ objects ++
      [room.id] ++ masks)

/-- The color cycles of a palette. -/
def cyclesBlock (palette : Palette) : Block :=
  leaf 'C' 'Y' 'C' 'L' <| palette.cycles.flatMap fun cycle =>
    [cycle.id, cycle.first, cycle.last] ++ Bytes.word cycle.delay

/-- The colors of a palette, as many as the file keeps. -/
def paletteBlock (palette : Palette) : Block :=
  leaf 'C' 'L' 'U' 'T' ((palette.colors.take Palette.capacity).flatMap Color.bytes)

/-- The background of a room and its masks. -/
def pictureBlock (room : RoomForge.Room) : Except BlockError Block := do
  let masks ← room.masks.zipIdx.mapM fun (mask, index) => maskBlock mask index
  return .container (.ofChars 'R' 'M' 'I' 'M')
    (leaf 'I' 'M' '0' '0' room.background.pixels :: masks)

/-- The images of an object. The size and the place of the colors are those of the first. -/
def objectImageBlock (object : Object) : Except BlockError Block := do
  let (width, height, base) := match object.images with
    | [] => (0, 0, 0)
    | first :: _ => (first.width, first.height, first.base)
  let count ← countByte "IMHD" object.images.length
  let header := leaf 'I' 'M' 'H' 'D'
    (Bytes.word object.id ++ Bytes.signedWord object.x ++ Bytes.signedWord object.y ++
      Bytes.word width ++ Bytes.word height ++ Bytes.word base ++ count)
  let images ← object.images.zipIdx.mapM fun (image, index) => do
    let tag ← Tag.indexed 'I'.toUInt8 'M'.toUInt8 (index + 1)
    return Block.leaf tag image.pixels
  return .container (.ofChars 'O' 'B' 'I' 'M') (header :: images)

/-- The number, verb and name of an object. -/
def objectCodeBlock (object : Object) : Block :=
  let verb := (object.verb.map codeOf).getD []
  ⟨.ofChars 'O' 'B' 'C' 'D', .short, [
    (leaf 'C' 'D' 'H' 'D' (Bytes.word object.id)).toPart,
    (leaf 'V' 'E' 'R' 'B' verb).toPart,
    (leaf 'O' 'B' 'N' 'A' (Text.utf8 object.name ++ [0])).toPart]⟩

/-- The block of a function that other functions can start. -/
def scriptBlock? (routine : Routine) : Option Block :=
  if routine.isInlined then none
  else routine.number.map fun number =>
    leaf 'L' 'S' 'C' 'R' (Bytes.word number ++ codeOf routine)

/-- The bytes of a walk box. -/
def boxBytes (box : WalkBox) : Bytes :=
  box.corners.flatMap (fun corner => Bytes.signedWord corner.x ++ Bytes.signedWord corner.y) ++
    [box.flags, box.scale]

/-- The walk boxes of a room. -/
def boxesBlock (boxes : List WalkBox) : Block :=
  leaf 'B' 'O' 'X' 'D' (boxes.flatMap boxBytes)

/-! ## Rooms, costumes and the game -/

/-- The parts of a room, in order. -/
def roomParts (room : RoomForge.Room) : Except BlockError (List Block) := do
  let header ← headerBlock room
  let picture ← pictureBlock room
  let images ← room.objects.mapM objectImageBlock
  return [header, cyclesBlock room.palette, paletteBlock room.palette, picture] ++ images ++
    room.objects.map objectCodeBlock ++
    [leaf 'E' 'X' 'C' 'D' (codeOf room.exit), leaf 'E' 'N' 'C' 'D' (codeOf room.entry)] ++
    room.routines.filterMap scriptBlock? ++ [boxesBlock room.boxes]

/-- The block of a room. -/
def roomBlock (room : RoomForge.Room) : Report BlockError Block := do
  .say .debug ("Packing room `" ++ room.name ++ "` (" ++ toString room.id ++ ")")
  let parts ← .ofExcept (roomParts room)
  return .container (.ofChars 'R' 'O' 'O' 'M') parts

/-- The block of an anim. -/
def animBlock (anim : Anim) : Except BlockError Block := do
  let count ← countByte "ANIM" anim.frames.length
  return leaf 'A' 'N' 'I' 'M' (anim.id :: (count ++ anim.frames))

/-- The block of a costume's frame. -/
def frameBlock (frame : Image) : Block :=
  leaf 'F' 'R' 'A' 'M' (Bytes.word frame.width ++ Bytes.word frame.height ++ frame.pixels)

/-- The block of a costume. -/
def costumeBlock (costume : Costume) : Except BlockError Block := do
  let anims ← countByte "CHDR" costume.anims.length
  let frames ← countByte "CHDR" costume.frames.length
  let header := leaf 'C' 'H' 'D' 'R'
    (Bytes.word costume.id ++ Bytes.word costume.base ++ anims ++ frames)
  let anims ← costume.anims.mapM animBlock
  return .container (.ofChars 'C' 'O' 'S' 'T')
    (header :: (anims ++ costume.frames.map frameBlock))

/-- The block of a room and its costumes. -/
def roomFile (room : RoomForge.Room) : Report BlockError Block := do
  let block ← roomBlock room
  let costumes ← .ofExcept (room.costumes.mapM costumeBlock)
  return .container (.ofChars 'L' 'F' 'L' 'F') (block :: costumes)

/-- The block of a game. -/
def gameBlock (rooms : List RoomForge.Room) : Report Failure Block := do
  let files ← .each (fun room =>
    ((roomFile room).mapError fun e => { cause := .block e }).doing (.packingRoom room.name)) rooms
  return .container (.ofChars 'L' 'E' 'C' 'F') files

/-- The bytes of the game file. -/
def gameBytes (rooms : List RoomForge.Room) : Report Failure Bytes := do
  let block ← gameBlock rooms
  let bytes : Report Failure Bytes :=
    .ofExcept (block.toBytes.mapError fun e => { cause := .block e })
  bytes.doing .serializing

end RoomForge.Resource
