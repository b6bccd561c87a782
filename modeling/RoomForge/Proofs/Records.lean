import RoomForge.Proofs.Fields
import RoomForge.Proofs.Opening
import RoomForge.Resource.Layout

set_option autoImplicit false

/-! # What the game file says

Records hold what the file keeps of a game: no names but those of objects, and of functions nothing
but their numbers and their code (specification, block tree of section 4.5). The readers make
records from bytes alone. They refuse a file whose counts and sizes are not those of what it holds.

`readGame` refuses more than the layout does. Of the pixels of a picture it checks that they fill
the size that the file states; the writer does not, because an image carries the proof of it.
-/

namespace RoomForge.Resource

open RoomForge.Picture RoomForge.Room RoomForge.Script

/-! ## Records -/

/-- A picture: the background of a room, or a frame of a costume. -/
structure PictureRecord where
  width : UInt16
  height : UInt16
  pixels : Bytes
  deriving DecidableEq, Repr, Inhabited

/-- A color cycle. -/
structure CycleRecord where
  id : UInt8
  first : UInt8
  last : UInt8
  delay : UInt16
  deriving DecidableEq, Repr, Inhabited

/-- An object with its verb. All its images are said to have the size and the place of the colors of
the first. -/
structure ObjectRecord where
  id : UInt16
  x : Int16
  y : Int16
  name : String
  verb : Bytes
  width : UInt16
  height : UInt16
  base : UInt16
  images : List Bytes
  deriving DecidableEq, Repr, Inhabited

/-- A function that others can start. -/
structure ScriptRecord where
  number : UInt16
  code : Bytes
  deriving DecidableEq, Repr, Inhabited

/-- A walk box, its corners clockwise from the upper left. -/
structure BoxRecord where
  corners : List Point
  flags : UInt8
  scale : UInt8
  deriving DecidableEq, Repr, Inhabited

/-- An anim of a costume. -/
structure AnimRecord where
  id : UInt8
  frames : List UInt8
  deriving DecidableEq, Repr, Inhabited

/-- A costume. -/
structure CostumeRecord where
  id : UInt16
  base : UInt16
  anims : List AnimRecord
  frames : List PictureRecord
  deriving DecidableEq, Repr, Inhabited

/-- A room with its costumes. -/
structure RoomRecord where
  id : UInt8
  background : PictureRecord
  masks : List Mask
  cycles : List CycleRecord
  colors : List Color
  objects : List ObjectRecord
  entry : Bytes
  exit : Bytes
  scripts : List ScriptRecord
  boxes : List BoxRecord
  costumes : List CostumeRecord
  deriving DecidableEq, Repr, Inhabited

/-! ## The records of a game -/

/-- What the file says of an image. -/
def PictureRecord.of (image : Image) : PictureRecord :=
  ⟨image.width, image.height, image.pixels⟩

/-- What the file says of a color cycle. -/
def CycleRecord.of (cycle : Cycle) : CycleRecord :=
  ⟨cycle.id, cycle.first, cycle.last, cycle.delay⟩

/-- What the file says of an object. One without images has no size. -/
def ObjectRecord.of (object : Object) : ObjectRecord where
  id := object.id
  x := object.x
  y := object.y
  name := object.name
  verb := (object.verb.bind (·.code)).getD []
  width := (object.images.head?.map (·.width)).getD 0
  height := (object.images.head?.map (·.height)).getD 0
  base := (object.images.head?.map (·.base)).getD 0
  images := object.images.map (·.pixels)

/-- What the file says of a function, if it has a number. -/
def ScriptRecord.of? (routine : Routine) : Option ScriptRecord :=
  routine.number.map fun number => ⟨number, routine.code.getD []⟩

/-- What the file says of a walk box. -/
def BoxRecord.of (box : WalkBox) : BoxRecord :=
  ⟨[box.upperLeft, box.upperRight, box.lowerRight, box.lowerLeft], box.flags, box.scale⟩

/-- What the file says of an anim. -/
def AnimRecord.of (anim : Anim) : AnimRecord :=
  ⟨anim.id, anim.frames⟩

/-- What the file says of a costume. -/
def CostumeRecord.of (costume : Costume) : CostumeRecord where
  id := costume.id
  base := costume.base
  anims := costume.anims.map AnimRecord.of
  frames := costume.frames.map PictureRecord.of

/-- What the file says of a room. -/
def RoomRecord.of (room : RoomForge.Room) : RoomRecord where
  id := room.id
  background := PictureRecord.of room.background
  masks := room.masks
  cycles := room.palette.cycles.map CycleRecord.of
  colors := room.palette.colors.take 256
  objects := room.objects.map ObjectRecord.of
  entry := room.entry.code.getD []
  exit := room.exit.code.getD []
  scripts := (room.routines.filter fun routine => !routine.isInlined).filterMap ScriptRecord.of?
  boxes := room.boxes.map BoxRecord.of
  costumes := room.costumes.map CostumeRecord.of

/-! ## Reading payloads -/

section

open RoomForge.Bytes

/-- The header of a room: its size, its number, and how much it has of what. -/
structure RoomHeader where
  width : UInt16
  height : UInt16
  objects : UInt16
  id : UInt8
  masks : UInt8

/-- Reads the header of a room. -/
def readRoomHeader : Reader RoomHeader := fun bytes => do
  let (width, bytes) ← readWord bytes
  let (height, bytes) ← readWord bytes
  let (objects, bytes) ← readWord bytes
  let (number, bytes) ← readByte bytes
  let (masks, bytes) ← readByte bytes
  return (⟨width, height, objects, number, masks⟩, bytes)

/-- Reads a color cycle. -/
def readCycle : Reader CycleRecord := fun bytes => do
  let (number, bytes) ← readByte bytes
  let (first, bytes) ← readByte bytes
  let (last, bytes) ← readByte bytes
  let (delay, bytes) ← readWord bytes
  return (⟨number, first, last, delay⟩, bytes)

/-- Reads a color. -/
def readColor : Reader Color := fun bytes => do
  let (red, bytes) ← readByte bytes
  let (green, bytes) ← readByte bytes
  let (blue, bytes) ← readByte bytes
  return (⟨red, green, blue⟩, bytes)

/-- The header of an object's images. -/
structure ImagesHeader where
  id : UInt16
  x : Int16
  y : Int16
  width : UInt16
  height : UInt16
  base : UInt16
  count : UInt8

/-- Reads the header of an object's images. -/
def readImagesHeader : Reader ImagesHeader := fun bytes => do
  let (number, bytes) ← readWord bytes
  let (x, bytes) ← readSignedWord bytes
  let (y, bytes) ← readSignedWord bytes
  let (width, bytes) ← readWord bytes
  let (height, bytes) ← readWord bytes
  let (base, bytes) ← readWord bytes
  let (count, bytes) ← readByte bytes
  return (⟨number, x, y, width, height, base, count⟩, bytes)

/-- Reads a point. -/
def readPoint : Reader Point := fun bytes => do
  let (x, bytes) ← readSignedWord bytes
  let (y, bytes) ← readSignedWord bytes
  return (⟨x, y⟩, bytes)

/-- Reads a walk box. -/
def readBox : Reader BoxRecord := fun bytes => do
  let (upperLeft, bytes) ← readPoint bytes
  let (upperRight, bytes) ← readPoint bytes
  let (lowerRight, bytes) ← readPoint bytes
  let (lowerLeft, bytes) ← readPoint bytes
  let (flags, bytes) ← readByte bytes
  let (scale, bytes) ← readByte bytes
  return (⟨[upperLeft, upperRight, lowerRight, lowerLeft], flags, scale⟩, bytes)

/-- The header of a costume. -/
structure CostumeHeader where
  id : UInt16
  base : UInt16
  anims : UInt8
  frames : UInt8

/-- Reads the header of a costume. -/
def readCostumeHeader : Reader CostumeHeader := fun bytes => do
  let (number, bytes) ← readWord bytes
  let (base, bytes) ← readWord bytes
  let (anims, bytes) ← readByte bytes
  let (frames, bytes) ← readByte bytes
  return (⟨number, base, anims, frames⟩, bytes)

/-- Reads an anim, whose frames are as many as it says. -/
def readAnim (bytes : Bytes) : Option AnimRecord := do
  let (number, bytes) ← readByte bytes
  let (count, frames) ← readByte bytes
  if count.toNat = frames.length then return ⟨number, frames⟩ else none

/-- A picture whose pixels fill its size. -/
def picture? (width height : UInt16) (pixels : Bytes) : Option PictureRecord :=
  if pixels.length = width.toNat * height.toNat then some ⟨width, height, pixels⟩ else none

/-- Reads a frame of a costume. -/
def readFrame (bytes : Bytes) : Option PictureRecord := do
  let (width, bytes) ← readWord bytes
  let (height, pixels) ← readWord bytes
  picture? width height pixels

/-- Reads a function. -/
def readScript (bytes : Bytes) : Option ScriptRecord := do
  let (number, code) ← readWord bytes
  return ⟨number, code⟩

/-- Reads a text that is all but the last of the bytes, which is zero. The text can hold zeros of
its own. -/
def readName (bytes : Bytes) : Option String :=
  if bytes.getLast? = some 0 then Text.ofUtf8? bytes.dropLast else none

theorem readRoomHeader_takes (header : RoomHeader) :
    readRoomHeader.Takes
      (word header.width ++ word header.height ++ word header.objects ++ [header.id] ++
        [header.masks])
      header := by
  intro rest
  simp [readRoomHeader]

theorem readCycle_takes (cycle : Cycle) :
    readCycle.Takes ([cycle.id, cycle.first, cycle.last] ++ word cycle.delay) (.of cycle) := by
  intro rest
  simp [readCycle, CycleRecord.of]

theorem readColor_takes (color : Color) : readColor.Takes color.bytes color := by
  intro rest
  simp [readColor, Color.bytes]

@[simp] theorem readPoint_append (point : Point) (rest : Bytes) :
    readPoint (signedWord point.x ++ (signedWord point.y ++ rest)) = some (point, rest) := by
  simp [readPoint]

theorem readBox_takes (box : WalkBox) : readBox.Takes (boxBytes box) (.of box) := by
  intro rest
  simp [readBox, boxBytes, WalkBox.corners, BoxRecord.of]

theorem readCostumeHeader_takes (header : CostumeHeader) :
    readCostumeHeader.Takes
      (word header.id ++ word header.base ++ [header.anims] ++ [header.frames]) header := by
  intro rest
  simp [readCostumeHeader]

theorem readFrame_eq (image : Image) :
    readFrame (word image.width ++ word image.height ++ image.pixels) =
      some (.of image) := by
  simp [readFrame, picture?, image.sized, PictureRecord.of]

theorem readScript_eq (number : UInt16) (code : Bytes) :
    readScript (word number ++ code) = some ⟨number, code⟩ := by
  simp [readScript]

theorem readName_eq (name : String) : readName (Text.utf8 name ++ [0]) = some name := by
  simp [readName, Text.ofUtf8?_utf8]

end

/-! ## Counts -/

theorem countByte_eq_ok_iff {tag : String} {count : Nat} {bytes : Bytes} :
    countByte tag count = .ok bytes ↔ count < 256 ∧ bytes = [UInt8.ofNat count] := by
  unfold countByte
  split
  · next h => simp [h, eq_comm]
  · next h => simp [h]

theorem countWord_eq_ok_iff {tag : String} {count : Nat} {bytes : Bytes} :
    countWord tag count = .ok bytes ↔ count < 65536 ∧ bytes = Bytes.word (UInt16.ofNat count) := by
  unfold countWord
  split
  · next h => simp [h, eq_comm]
  · next h => simp [h]

theorem readAnim_eq {anim : Anim} {tag : String} {count : Bytes}
    (h : countByte tag anim.frames.length = .ok count) :
    readAnim (anim.id :: (count ++ anim.frames)) = some (.of anim) := by
  obtain ⟨hfits, rfl⟩ := countByte_eq_ok_iff.mp h
  simp [readAnim, AnimRecord.of, Nat.mod_eq_of_lt hfits]

/-! ## Reading blocks -/

/-- Accepts one tag. -/
def isTag (a b c d : Char) (tag : Tag) : Bool :=
  tag == .ofChars a b c d

/-- Accepts the tags of two characters and an index. -/
def isIndexed (a b : Char) (tag : Tag) : Bool :=
  tag.first == a.toUInt8 && tag.second == b.toUInt8

/-- Reads a mask of the given size. -/
def readMask (width height : UInt16) : Bytes → Option Mask :=
  readBlock (isIndexed 'Z' 'P') fun strips => Mask.ofStrips? strips width height

/-- Reads the background of a room and its masks, which are of the given size. -/
def readPicture (width height : UInt16) : Bytes → Option (PictureRecord × List Mask) :=
  readBlock (isTag 'R' 'M' 'I' 'M') fun
    | [] => none
    | first :: rest => do
      let background ← readLeaf (isTag 'I' 'M' '0' '0') (picture? width height) first
      let masks ← rest.mapM (readMask width height)
      return (background, masks)

/-- Reads the images of an object, which are as many as their header says. -/
def readObjectImages : Bytes → Option (ImagesHeader × List Bytes) :=
  readBlock (isTag 'O' 'B' 'I' 'M') fun
    | [] => none
    | first :: rest => do
      let header ← readLeaf (isTag 'I' 'M' 'H' 'D') readImagesHeader.whole first
      let images ← rest.mapM (readLeaf (isIndexed 'I' 'M') some)
      if header.count.toNat = images.length then return (header, images) else none

/-- What the file says of an object apart from its images. -/
structure ObjectCode where
  id : UInt16
  verb : Bytes
  name : String

/-- Reads the number, verb and name of an object. -/
def readObjectCode : Bytes → Option ObjectCode :=
  readBlock (isTag 'O' 'B' 'C' 'D') fun pieces => do
    let number ← readOne (.ofChars 'C' 'D' 'H' 'D')
      (readLeaf (isTag 'C' 'D' 'H' 'D') Bytes.readWord.whole) pieces
    let verb ← readOne (.ofChars 'V' 'E' 'R' 'B') (readLeaf (isTag 'V' 'E' 'R' 'B') some) pieces
    let name ← readOne (.ofChars 'O' 'B' 'N' 'A') (readLeaf (isTag 'O' 'B' 'N' 'A') readName) pieces
    return ⟨number, verb, name⟩

/-- Puts the two halves of an object together, which have the same number. -/
def joinObject (images : ImagesHeader × List Bytes) (code : ObjectCode) : Option ObjectRecord :=
  let header := images.1
  if header.id = code.id then
    some { id := header.id, x := header.x, y := header.y, name := code.name, verb := code.verb,
           width := header.width, height := header.height, base := header.base, images := images.2 }
  else none

/-- Reads a costume, whose anims and frames are as many as its header says. -/
def readCostume : Bytes → Option CostumeRecord :=
  readBlock (isTag 'C' 'O' 'S' 'T') fun pieces => do
    let header ← readOne (.ofChars 'C' 'H' 'D' 'R')
      (readLeaf (isTag 'C' 'H' 'D' 'R') readCostumeHeader.whole) pieces
    let anims ← readAll (.ofChars 'A' 'N' 'I' 'M')
      (readLeaf (isTag 'A' 'N' 'I' 'M') readAnim) pieces
    let frames ← readAll (.ofChars 'F' 'R' 'A' 'M')
      (readLeaf (isTag 'F' 'R' 'A' 'M') readFrame) pieces
    if header.anims.toNat = anims.length ∧ header.frames.toNat = frames.length then
      return ⟨header.id, header.base, anims, frames⟩
    else none

/-- Reads a room that has the given costumes. Its objects and masks are as many as its header says.
-/
def readRoom (costumes : List CostumeRecord) : Bytes → Option RoomRecord :=
  readBlock (isTag 'R' 'O' 'O' 'M') fun pieces => do
    let header ← readOne (.ofChars 'R' 'M' 'H' 'D')
      (readLeaf (isTag 'R' 'M' 'H' 'D') readRoomHeader.whole) pieces
    let cycles ← readOne (.ofChars 'C' 'Y' 'C' 'L')
      (readLeaf (isTag 'C' 'Y' 'C' 'L') (Bytes.readMany readCycle)) pieces
    let colors ← readOne (.ofChars 'C' 'L' 'U' 'T')
      (readLeaf (isTag 'C' 'L' 'U' 'T') (Bytes.readMany readColor)) pieces
    let (background, masks) ← readOne (.ofChars 'R' 'M' 'I' 'M')
      (readPicture header.width header.height) pieces
    let images ← readAll (.ofChars 'O' 'B' 'I' 'M') readObjectImages pieces
    let codes ← readAll (.ofChars 'O' 'B' 'C' 'D') readObjectCode pieces
    let objects ← (images.zip codes).mapM fun (images, code) => joinObject images code
    let exit ← readOne (.ofChars 'E' 'X' 'C' 'D') (readLeaf (isTag 'E' 'X' 'C' 'D') some) pieces
    let entry ← readOne (.ofChars 'E' 'N' 'C' 'D') (readLeaf (isTag 'E' 'N' 'C' 'D') some) pieces
    let scripts ← readAll (.ofChars 'L' 'S' 'C' 'R')
      (readLeaf (isTag 'L' 'S' 'C' 'R') readScript) pieces
    let boxes ← readOne (.ofChars 'B' 'O' 'X' 'D')
      (readLeaf (isTag 'B' 'O' 'X' 'D') (Bytes.readMany readBox)) pieces
    if header.masks.toNat = masks.length ∧ header.objects.toNat = images.length ∧
        images.length = codes.length then
      return { id := header.id, background, masks, cycles, colors, objects, entry, exit, scripts,
               boxes, costumes }
    else none

/-- Reads a room with its costumes. -/
def readRoomFile : Bytes → Option RoomRecord :=
  readBlock (isTag 'L' 'F' 'L' 'F') fun pieces => do
    let costumes ← readAll (.ofChars 'C' 'O' 'S' 'T') readCostume pieces
    readOne (.ofChars 'R' 'O' 'O' 'M') (readRoom costumes) pieces

/-- Reads a game: the records of its rooms, in order. -/
def readGame : Bytes → Option (List RoomRecord) :=
  readBlock (isTag 'L' 'E' 'C' 'F') fun pieces => pieces.mapM readRoomFile

end RoomForge.Resource
