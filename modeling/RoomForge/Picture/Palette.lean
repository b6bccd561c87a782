set_option autoImplicit false

/-! # Colors and palettes

The colors of a room and their cycles, with the operations of sections 3 and 6.2 of the
specification. Replacing a color takes a proof that the color is there, and `setColors` does so for
a row of colors; `setColors_nil` and `setColors_cons` say that it writes them one after the other.

A palette can hold more colors than `Palette.capacity`: the limit is one of the game file.
-/

namespace RoomForge.Picture

/-- A color by its parts of red, green and blue. -/
structure Color where
  red : UInt8 := 0
  green : UInt8 := 0
  blue : UInt8 := 0
  deriving DecidableEq, Repr, Inhabited

/-- The three bytes of a color. -/
def Color.bytes (color : Color) : List UInt8 :=
  [color.red, color.green, color.blue]

/-- A range of palette entries that the engine rotates. -/
structure Cycle where
  id : UInt8
  name : String
  first : UInt8
  last : UInt8
  delay : UInt16
  deriving DecidableEq, Repr, Inhabited

/-- The colors of a room and their cycles. -/
structure Palette where
  colors : List Color := []
  cycles : List Cycle := []
  deriving DecidableEq, Repr, Inhabited

namespace Palette

/-- How many colors of a palette the game file keeps. -/
def capacity : Nat := 256

/-- Cuts the palette to `count` colors, or fills it up with black. -/
def resize (palette : Palette) (count : Nat) : Palette :=
  { palette with
    colors := palette.colors.take count ++ List.replicate (count - palette.colors.length) {} }

/-- Replaces the color at `index`. -/
def setColor (palette : Palette) (index : Nat) (color : Color)
    (_inside : index < palette.colors.length) : Palette :=
  { palette with colors := palette.colors.set index color }

/-- Replaces the color at `index`, which has to exist. -/
def setColor? (palette : Palette) (index : Nat) (color : Color) : Option Palette :=
  if inside : index < palette.colors.length then some (palette.setColor index color inside)
  else none

/-- Writes colors over those of a row from `start` on, one after the other. -/
def overwrite (row : Array Color) (start : Nat) :
    (colors : List Color) → start + colors.length ≤ row.size → Array Color
  | [], _ => row
  | color :: rest, inside =>
    have here : start < row.size := by
      simp only [List.length_cons] at inside
      omega
    overwrite (row.set start color here) (start + 1) rest (by
      simp only [List.length_cons] at inside
      simp only [Array.size_set]
      omega)

/-- Replaces the colors from `start` on by `colors`, one after the other. -/
def setColors (palette : Palette) (start : Nat) (colors : List Color)
    (inside : start + colors.length ≤ palette.colors.length) : Palette :=
  { palette with colors := (overwrite palette.colors.toArray start colors inside).toList }

/-- The cycle at `index`. -/
def cycle? (palette : Palette) (index : Nat) : Option Cycle :=
  palette.cycles[index]?

@[simp] theorem length_resize (palette : Palette) (count : Nat) :
    (palette.resize count).colors.length = count := by
  simp only [resize, List.length_append, List.length_take, List.length_replicate]
  omega

@[simp] theorem length_setColor (palette : Palette) (index : Nat) (color : Color)
    (inside : index < palette.colors.length) :
    (palette.setColor index color inside).colors.length = palette.colors.length :=
  List.length_set

theorem setColors_nil (palette : Palette) (start : Nat)
    (inside : start + ([] : List Color).length ≤ palette.colors.length) :
    palette.setColors start [] inside = palette := rfl

/-- The first color is written at `start`, and the others behind it. -/
theorem setColors_cons (palette : Palette) (start : Nat) (color : Color) (rest : List Color)
    (inside : start + (color :: rest).length ≤ palette.colors.length)
    (here : start < palette.colors.length)
    (behind : start + 1 + rest.length ≤ (palette.setColor start color here).colors.length) :
    palette.setColors start (color :: rest) inside =
      (palette.setColor start color here).setColors (start + 1) rest behind := by
  simp [setColors, setColor, overwrite]

end Palette

end RoomForge.Picture
