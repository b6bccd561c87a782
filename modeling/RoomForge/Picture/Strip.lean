import RoomForge.Bytes
import RoomForge.Picture.Mask

set_option autoImplicit false

/-! # Strips of masks

The encoding of masks (specification, section 4.5). A mask is stored in strips of eight columns,
from the left. A strip is a byte for each row, the leftmost column in the highest bit, cut into
segments of at most 127 rows; a segment is the number of its rows followed by them. Columns behind
the right edge are zero when written, and ignored when read.
-/

namespace RoomForge.Picture

namespace Strip

/-- The columns of a strip. -/
def columns : Nat := 8

/-- The most rows of a segment. -/
def segmentRows : Nat := 127

/-- How many strips a mask of the given width has. -/
def count (width : UInt16) : Nat :=
  (width.toNat + 7) / columns

/-- The bit of column `column` in the byte of a row. -/
def columnBit (column : Nat) : UInt8 :=
  0x80 >>> UInt8.ofNat column

/-- The byte of row `y` in strip number `strip`. -/
def rowByte (mask : Mask) (strip y : Nat) : UInt8 :=
  (List.range columns).foldl
    (fun byte column =>
      if mask.bit (strip * columns + column) y then byte ||| columnBit column else byte) 0

/-- Cuts rows into segments. -/
def segments (rows : Bytes) : Bytes :=
  if rows.isEmpty then []
  else
    let head := rows.take segmentRows
    UInt8.ofNat head.length :: (head ++ segments (rows.drop segmentRows))
termination_by rows.length
decreasing_by
  have : rows ≠ [] := by simpa using ‹¬rows.isEmpty = true›
  have := List.length_pos_iff.mpr this
  simp only [List.length_drop, segmentRows]
  omega

/-- The bytes of strip number `strip`. -/
def encode (mask : Mask) (strip : Nat) : Bytes :=
  segments ((List.range mask.height.toNat).map (rowByte mask strip))

/-- Reads the segments of `left` more rows, behind the rows in `taken` (last first). The segments
have to hold these rows exactly. -/
def readRows (left : Nat) (bytes : Bytes) (taken : Bytes) : Option Bytes :=
  match bytes with
  | [] => if left = 0 then some taken.reverse else none
  | size :: rest =>
    let size := size.toNat
    let head := rest.take size
    if left = 0 ∨ size = 0 ∨ segmentRows < size ∨ left < size ∨ head.length < size then none
    else readRows (left - size) (rest.drop size) (head.reverse ++ taken)
termination_by bytes.length
decreasing_by
  simp only [List.length_drop, List.length_cons]
  omega

end Strip

/-- The strips of a mask, from the left. -/
def Mask.toStrips (mask : Mask) : List Bytes :=
  (List.range (Strip.count mask.width)).map (Strip.encode mask)

/-- The mask of the given size that `strips` describe, if they do so exactly. -/
def Mask.ofStrips? (strips : List Bytes) (width height : UInt16) : Option Mask :=
  if strips.length ≠ Strip.count width then none
  else do
    let rows ← strips.mapM fun strip => Strip.readRows height.toNat strip []
    let table := (rows.map List.toArray).toArray
    return ofBits width height fun x y =>
      let byte := (table[x / Strip.columns]?.bind (·[y]?)).getD 0
      byte &&& Strip.columnBit (x % Strip.columns) != 0

end RoomForge.Picture
