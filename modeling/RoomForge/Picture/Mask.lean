set_option autoImplicit false

/-! # Masks

A mask holds one bit for each pixel of a room's background (specification, sections 3 and 6.2). It
carries the proof that it has as many bits as its size says. `Mask.ofRows` reads one from rows of
text; `Proofs.MaskRows` says which rows it takes.
-/

namespace RoomForge.Picture

/-- One bit for each pixel, the top row first, each row from the left. -/
structure Mask where
  width : UInt16
  height : UInt16
  bits : Array Bool
  sized : bits.size = width.toNat * height.toNat
  deriving DecidableEq, Repr

/-- Why a mask is refused. -/
inductive MaskFault where
  | tooWide (width : Nat)
  | tooTall (height : Nat)
  /-- A row of another length than the first one. -/
  | ragged (row length width : Nat)
  /-- A character other than `0` and `1`. -/
  | badPixel (c : Char) (row : Nat)
  /-- A bit whose place doesn't exist, which `Mask.ofRows` never writes. -/
  | outside (column row : Nat)
  deriving DecidableEq, Repr, Inhabited

/-- The wording of a refusal. -/
def MaskFault.message : MaskFault → String
  | .tooWide width => s!"mask is too wide: {width}"
  | .tooTall height => s!"mask is too tall: {height}"
  | .ragged row length width => s!"mask row {row} has {length} pixels, expected {width}"
  | .badPixel c row => s!"invalid mask pixel `{c}` in row {row}"
  | .outside column row => s!"no mask pixel {column} in row {row}"

namespace Mask

/-- The mask whose bit in column `x` of row `y` is `bit x y`. -/
def ofBits (width height : UInt16) (bit : (x y : Nat) → Bool) : Mask where
  width
  height
  bits := Array.ofFn fun place : Fin (width.toNat * height.toNat) =>
    bit (place.val % width.toNat) (place.val / width.toNat)
  sized := Array.size_ofFn

/-- The mask without a bit set. -/
def clear (width height : UInt16) : Mask where
  width
  height
  bits := Array.replicate (width.toNat * height.toNat) false
  sized := Array.size_replicate

instance : Inhabited Mask := ⟨clear 0 0⟩

/-- The place of column `x` of row `y` among all bits. -/
def place (mask : Mask) (x y : UInt16) : Nat :=
  y.toNat * mask.width.toNat + x.toNat

/-- The bit in column `x` of row `y`. Only its place among all bits has to exist. -/
def pixel? (mask : Mask) (x y : UInt16) : Option Bool :=
  mask.bits[mask.place x y]?

/-- Replaces the bit in column `x` of row `y`, whose place has to exist. -/
def set? (mask : Mask) (x y : UInt16) (bit : Bool) : Option Mask :=
  if h : mask.place x y < mask.bits.size then
    some { mask with
      bits := mask.bits.set (mask.place x y) bit h
      sized := by rw [Array.size_set, mask.sized] }
  else none

/-- The bit in column `x` of row `y`, and no bit outside of the mask. -/
def bit (mask : Mask) (x y : Nat) : Bool :=
  if x < mask.width.toNat then mask.bits[y * mask.width.toNat + x]?.getD false else false

/-- The bit that a character of a row stands for. -/
def bitOf? : Char → Option Bool
  | '0' => some false
  | '1' => some true
  | _ => none

/-- Writes the characters of row number `index` from column `x` on, one bit after the other, up to
the first character that stands for no bit. -/
def writeRow (index : Nat) : List Char → (x : Nat) → Mask → Except MaskFault Mask
  | [], _, mask => .ok mask
  | c :: rest, x, mask =>
    match bitOf? c with
    | none => .error (.badPixel c index)
    | some bit =>
      match mask.set? (UInt16.ofNat x) (UInt16.ofNat index) bit with
      | none => .error (.outside x index)
      | some mask => writeRow index rest (x + 1) mask

/-- Writes rows from number `index` on. A row's length is counted in bytes and has to be `width`. -/
def writeRows (width : Nat) : List String → (index : Nat) → Mask → Except MaskFault Mask
  | [], _, mask => .ok mask
  | row :: rest, index, mask =>
    if row.utf8ByteSize ≠ width then .error (.ragged index row.utf8ByteSize width)
    else do
      let mask ← writeRow index row.toList 0 mask
      writeRows width rest (index + 1) mask

/-- Reads a mask from rows of `0` and `1`, the top row first. The first row gives the width. -/
def ofRows (rows : List String) : Except MaskFault Mask :=
  let width := (rows.head?.map String.utf8ByteSize).getD 0
  if 65535 < width then .error (.tooWide width)
  else if 65535 < rows.length then .error (.tooTall rows.length)
  else writeRows width rows 0 (clear (UInt16.ofNat width) (UInt16.ofNat rows.length))

/-- The rows of a mask as `0` and `1`. -/
def toRows (mask : Mask) : List String :=
  (List.range mask.height.toNat).map fun y =>
    String.ofList ((List.range mask.width.toNat).map fun x => if mask.bit x y then '1' else '0')

end Mask

end RoomForge.Picture
