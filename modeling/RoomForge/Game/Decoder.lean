import RoomForge.Game.Descriptor
import RoomForge.Game.Json

set_option autoImplicit false

/-! # Descriptors in JSON

`Format.json` is the format that the program reads (specification, section 6.3). A descriptor is an
object with known fields. A field may be missing only if it has a default; fields that are not known
are skipped, and a known one may not be repeated. Beyond the section, the fields may also be given
as an array, in order.

No result about loading or building depends on this module: they hold for every `Format`.
-/

namespace RoomForge.Game

open RoomForge.Picture RoomForge.Room

/-! ## Values of fields -/

/-- Reads a value of some type from JSON. -/
abbrev Decoder (α : Type) := Json → Option α

namespace Decoder

/-- A text. -/
def text : Decoder String
  | .str text => text
  | _ => none

/-- An integer between two bounds. -/
def integer (low high : Int) : Decoder Int
  | .int value => if low ≤ value ∧ value ≤ high then some value else none
  | _ => none

/-- A byte. -/
def byte : Decoder UInt8 := fun json =>
  (integer 0 255 json).map fun value => UInt8.ofNat value.toNat

/-- A word. -/
def word : Decoder UInt16 := fun json =>
  (integer 0 65535 json).map fun value => UInt16.ofNat value.toNat

/-- A signed word. -/
def signedWord : Decoder Int16 := fun json =>
  (integer (-32768) 32767 json).map Int16.ofInt

variable {α : Type}

/-- A list. -/
def list (item : Decoder α) : Decoder (List α)
  | .arr items => items.mapM item
  | _ => none

/-- A color as its three parts. -/
def color : Decoder Color
  | .arr [red, green, blue] => do
    return ⟨← byte red, ← byte green, ← byte blue⟩
  | _ => none

/-- A point as its two coordinates. -/
def point : Decoder Point
  | .arr [x, y] => do return ⟨← signedWord x, ← signedWord y⟩
  | _ => none

end Decoder

/-! ## Records -/

/-- The values of an object's known fields. A member whose name spells no text, or a known member
that is repeated, spoils the object. -/
def memberFields (names : List String) (members : List (Option String × Json)) :
    Option (List (Option Json)) :=
  if members.any fun member => member.1.isNone then none
  else names.mapM fun name =>
    match members.filter fun member => member.1 == some name with
    | [] => some none
    | [member] => some (some member.2)
    | _ => none

/-- The values of a record's fields: none for one that is missing. -/
def fields (names : List String) : Decoder (List (Option Json))
  | .obj members => memberFields names members
  | .arr items =>
    if names.length < items.length then none
    else some (items.map some ++ List.replicate (names.length - items.length) none)
  | _ => none

/-- A field that has to be there. -/
def required {α : Type} (decoder : Decoder α) (field : Option Json) : Option α :=
  field.bind decoder

/-- A field with a default. -/
def optional {α : Type} (default : α) (decoder : Decoder α) (field : Option Json) : Option α :=
  match field with
  | none => some default
  | some json => decoder json

/-- A record of one field: a list of names. -/
def manifest (field : String) : Decoder (List String) := fun json => do
  match ← fields [field] json with
  | [names] => required (.list .text) names
  | _ => none

/-- Reads a color cycle. -/
def CycleDescriptor.decode : Decoder CycleDescriptor := fun json => do
  match ← fields ["name", "start", "end", "delay"] json with
  | [name, first, last, delay] =>
    return ⟨← required .text name, ← required .byte first, ← required .byte last,
      ← required .word delay⟩
  | _ => none

/-- Reads a palette. -/
def PaletteDescriptor.decode : Decoder PaletteDescriptor := fun json => do
  match ← fields ["colors", "cycles"] json with
  | [colors, cycles] =>
    return ⟨← optional [] (.list .color) colors,
      ← optional [] (.list CycleDescriptor.decode) cycles⟩
  | _ => none

/-- Reads a walk box. -/
def BoxDescriptor.decode : Decoder BoxDescriptor := fun json => do
  match ← fields ["name", "corners", "flags", "scale"] json with
  | [name, corners, flags, scale] =>
    let name ← required .text name
    match ← required (.list .point) corners with
    | [upperLeft, upperRight, lowerRight, lowerLeft] =>
      return ⟨name, upperLeft, upperRight, lowerRight, lowerLeft, ← optional 0 .byte flags,
        ← optional 255 .byte scale⟩
    | _ => none
  | _ => none

/-- Reads a room. -/
def RoomDescriptor.decode : Decoder RoomDescriptor := fun json => do
  match ← fields ["background", "zplanes", "palette", "boxes"] json with
  | [background, masks, palette, boxes] =>
    return ⟨← required .text background, ← optional [] (.list .text) masks,
      ← optional {} PaletteDescriptor.decode palette,
      ← optional [] (.list BoxDescriptor.decode) boxes⟩
  | _ => none

/-- Reads an object. -/
def ObjectDescriptor.decode : Decoder ObjectDescriptor := fun json => do
  match ← fields ["id", "x", "y", "images"] json with
  | [id, x, y, images] =>
    return ⟨← required .word id, ← optional 0 .signedWord x, ← optional 0 .signedWord y,
      ← optional [] (.list .text) images⟩
  | _ => none

/-- Reads an anim. -/
def AnimDescriptor.decode : Decoder AnimDescriptor := fun json => do
  match ← fields ["name", "frames"] json with
  | [name, frames] => return ⟨← required .text name, ← required (.list .byte) frames⟩
  | _ => none

/-- Reads a costume. -/
def CostumeDescriptor.decode : Decoder CostumeDescriptor := fun json => do
  match ← fields ["id", "colors", "frames", "anims"] json with
  | [id, colors, frames, anims] =>
    return ⟨← required .word id, ← optional [] (.list .color) colors,
      ← optional [] (.list .text) frames, ← optional [] (.list AnimDescriptor.decode) anims⟩
  | _ => none

/-- Reads an image. -/
def ImageDescriptor.decode : Decoder ImageDescriptor := fun json => do
  match ← fields ["width", "height", "colors", "pixels"] json with
  | [width, height, colors, pixels] =>
    return ⟨← required .word width, ← required .word height, ← optional [] (.list .color) colors,
      ← required (.list .byte) pixels⟩
  | _ => none

/-- Reads a mask. -/
def MaskDescriptor.decode : Decoder MaskDescriptor := fun json => do
  match ← fields ["width", "height", "rows"] json with
  | [width, height, rows] =>
    return ⟨← required .word width, ← required .word height, ← required (.list .text) rows⟩
  | _ => none

/-- Reads a text in JSON. -/
def Decoder.read {α : Type} (decode : Decoder α) (text : String) : Option α :=
  (Json.parse? text).bind decode

/-- Descriptors in JSON. -/
def Format.json : Format where
  manifest field := (Game.manifest field).read
  room := RoomDescriptor.decode.read
  object := ObjectDescriptor.decode.read
  costume := CostumeDescriptor.decode.read
  image := ImageDescriptor.decode.read
  mask := MaskDescriptor.decode.read

end RoomForge.Game
