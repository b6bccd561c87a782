import RoomForge.Room.Basic

set_option autoImplicit false

/-! # The colors of a room

Merging colors (specification, section 4.4, steps 3 and 4). Objects and costumes bring colors of
their own, which are put behind the colors of the room, in the order objects, costumes. Each image
and costume is told where its colors start.

Two passes do this. The first only counts: `placeObjectColors` and `placeCostumeColors` tell things
where their colors will stand. The second fills the palette up with black and writes the colors over
it. `mergeColors_eq` in `Proofs.MergedColors` says that the second pass puts them where the first
one said. The place is kept in a word, so it is only right up to 65535 colors; the file keeps 256,
and what lies beyond is reported by a warning.
-/

namespace RoomForge.Room

open RoomForge.Code RoomForge.Picture

/-- Places the colors of objects behind `used` colors: the objects, told where their colors start,
and the colors. Only the first image of an object brings colors, for all its images. -/
def placeObjectColors (used : Nat) : List Object → List Object × List Color
  | [] => ([], [])
  | object :: rest =>
    match object.images with
    | [] =>
      let (objects, colors) := placeObjectColors used rest
      (object :: objects, colors)
    | first :: _ =>
      let placed := { object with images := object.images.map (·.withBase (UInt16.ofNat used)) }
      let (objects, colors) := placeObjectColors (used + first.colors.length) rest
      (placed :: objects, first.colors ++ colors)

/-- Places the colors of costumes behind `used` colors. -/
def placeCostumeColors (used : Nat) : List Costume → List Costume × List Color
  | [] => ([], [])
  | costume :: rest =>
    let placed := { costume with base := UInt16.ofNat used }
    let (costumes, colors) := placeCostumeColors (used + costume.colors.length) rest
    (placed :: costumes, costume.colors ++ colors)

/-- A room's palette, objects and costumes with their colors merged. -/
structure MergedColors where
  palette : Palette
  objects : List Object
  costumes : List Costume
  /-- Set when there are more colors than the game file keeps. -/
  overflow : Option Warning

/-- Merges the colors of a room. The first pass tells objects and costumes where their colors will
start, the second makes room for these colors in the palette and writes them there. -/
def mergeColors (palette : Palette) (objects : List Object) (costumes : List Costume) :
    MergedColors :=
  let original := palette.colors.length
  let (objects, objectColors) := placeObjectColors original objects
  let (costumes, costumeColors) := placeCostumeColors (original + objectColors.length) costumes
  let added := objectColors ++ costumeColors
  let required := original + added.length
  have inside : original + added.length ≤ (palette.resize required).colors.length :=
    Nat.le_of_eq (palette.length_resize required).symm
  { palette := (palette.resize required).setColors original added inside
    objects
    costumes
    overflow :=
      if Palette.capacity < required then some (.paletteOverflow required Palette.capacity)
      else none }

end RoomForge.Room
