import RoomForge.Picture.Palette

set_option autoImplicit false

/-! # Images

A picture of palette entries, row by row, with the colors it was drawn with (specification, section
6.2). An image carries the proof that it has as many pixels as its size says, so the writer of the
game file has nothing to check.
-/

namespace RoomForge.Picture

/-- A picture. Its pixels fill its width and height exactly. -/
structure Image where
  width : UInt16
  height : UInt16
  /-- Palette entries, the top row first, each row from the left. -/
  pixels : List UInt8
  colors : List Color := []
  /-- Where the image's own colors start in the palette of its room. -/
  base : UInt16 := 0
  sized : pixels.length = width.toNat * height.toNat
  deriving DecidableEq, Repr

/-- Why an image is refused. -/
structure ImageFault where
  pixels : Nat
  width : UInt16
  height : UInt16
  deriving DecidableEq, Repr, Inhabited

/-- The wording of a refusal. -/
def ImageFault.message (fault : ImageFault) : String :=
  let needed := fault.width.toNat * fault.height.toNat
  let size := toString fault.width ++ "x" ++ toString fault.height
  "image has " ++ toString fault.pixels ++ " pixels, " ++ size ++ " needs " ++ toString needed

namespace Image

/-- The image of one pixel. -/
instance : Inhabited Image := ⟨{ width := 1, height := 1, pixels := [0], sized := rfl }⟩

/-- The image without pixels. -/
def empty : Image where
  width := 0
  height := 0
  pixels := []
  sized := rfl

/-- An image of the given size, if `pixels` fills it. -/
def ofPixels (width height : UInt16) (pixels : List UInt8) (colors : List Color) :
    Except ImageFault Image :=
  if sized : pixels.length = width.toNat * height.toNat then
    .ok { width, height, pixels, colors, sized }
  else .error ⟨pixels.length, width, height⟩

/-- The pixel at column `x` of row `y`. Only the place in the row of all pixels has to exist. -/
def pixel? (image : Image) (x y : UInt16) : Option UInt8 :=
  image.pixels[y.toNat * image.width.toNat + x.toNat]?

/-- The image with its colors at `base`. -/
def withBase (image : Image) (base : UInt16) : Image :=
  { image with base }

theorem ofPixels_isOk_iff {width height : UInt16} {pixels : List UInt8} {colors : List Color} :
    (∃ image, ofPixels width height pixels colors = .ok image) ↔
      pixels.length = width.toNat * height.toNat := by
  unfold ofPixels
  split
  · next h => exact ⟨fun _ => h, fun _ => ⟨_, rfl⟩⟩
  · next h => exact ⟨fun ⟨_, hok⟩ => by simp at hok, fun hlength => absurd hlength h⟩

end Image

end RoomForge.Picture
