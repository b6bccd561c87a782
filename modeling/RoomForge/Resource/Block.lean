import RoomForge.Text.Utf8

set_option autoImplicit false

/-! # Blocks

The game file is a tree of blocks (specification, section 4.5). A block is a tag of four bytes, its
size in four bytes (highest first, all of the block counted), a table with the start of each of its
parts (lowest byte first, counted from the block's first byte) and the parts: raw bytes or blocks. A
table entry has two bytes, or four in blocks whose parts can lie far apart.

The size is computed from the parts and compared with what was written, as the section asks. The two
never differ; `Proofs.BlockFormat` shows this and what else a written block says of itself.
-/

namespace RoomForge.Resource

/-- The four bytes that say what a block holds. -/
structure Tag where
  first : UInt8
  second : UInt8
  third : UInt8
  fourth : UInt8
  deriving DecidableEq, Repr, Inhabited

namespace Tag

/-- The tag written with four ASCII characters. -/
def ofChars (a b c d : Char) : Tag :=
  ⟨a.toUInt8, b.toUInt8, c.toUInt8, d.toUInt8⟩

/-- The bytes of a tag. -/
def bytes (tag : Tag) : Bytes :=
  [tag.first, tag.second, tag.third, tag.fourth]

/-- A tag as messages show it. -/
def name (tag : Tag) : String :=
  Text.lenient tag.bytes

end Tag

/-- Why a block can't be built or written. -/
inductive BlockError where
  /-- A part starts further than a table entry reaches. -/
  | offsetOverflow (tag : String) (offset : Nat)
  | tooLarge (tag : String) (size : Nat)
  | sizeMismatch (tag : String) (expected written : Nat)
  /-- There are more entries than a count field can say. -/
  | tooMany (tag : String) (count : Nat)
  /-- A tag's index has more than two digits. -/
  | tagIndex (index : Nat)
  deriving DecidableEq, Repr, Inhabited

/-- The wording of a cause. -/
def BlockError.message : BlockError → String
  | .offsetOverflow tag offset =>
    s!"block `{tag}`: offset {offset} doesn't fit in its offset table"
  | .tooLarge tag size => s!"block `{tag}`: {size} bytes doesn't fit in 32 bits"
  | .sizeMismatch tag expected written =>
    s!"block `{tag}`: wrote {written} bytes, computed {expected}"
  | .tooMany tag count => s!"block `{tag}`: {count} entries don't fit in its count field"
  | .tagIndex index => s!"index {index} can't be written as a two digit tag suffix"

/-- The tag of two bytes and a two digit index. -/
def Tag.indexed (a b : UInt8) (index : Nat) : Except BlockError Tag :=
  if 99 < index then .error (.tagIndex index)
  else .ok ⟨a, b, UInt8.ofNat (48 + index / 10), UInt8.ofNat (48 + index % 10)⟩

/-- The width of a table's entries. -/
inductive OffsetWidth where
  | short
  | long
  deriving DecidableEq, Repr, Inhabited

namespace OffsetWidth

/-- The bytes of an entry. -/
def bytes : OffsetWidth → Nat
  | short => 2
  | long => 4

/-- The largest offset that an entry can hold. -/
def limit : OffsetWidth → Nat
  | short => 0xFFFF
  | long => 0xFFFFFFFF

end OffsetWidth

/-- A part of a block. -/
inductive Part where
  | raw (bytes : Bytes)
  | block (tag : Tag) (width : OffsetWidth) (parts : List Part)
  deriving Repr, Inhabited

/-- The bytes in front of the parts of a block with `count` parts. -/
def headerSize (width : OffsetWidth) (count : Nat) : Nat :=
  8 + width.bytes * count

mutual

/-- How many bytes a part takes. -/
def Part.size : Part → Nat
  | .raw bytes => bytes.length
  | .block _ width parts => headerSize width parts.length + Part.sizeAll 0 parts

/-- How many bytes parts take together, counted on from `sum`. -/
def Part.sizeAll (sum : Nat) : List Part → Nat
  | [] => sum
  | part :: rest => Part.sizeAll (sum + part.size) rest

end

/-- The start of each part, when the first starts at `start`. -/
def partStarts (start : Nat) : List Part → List Nat
  | [] => []
  | part :: rest => start :: partStarts (start + part.size) rest

/-- The entries of a block's table. -/
def offsets (tag : Tag) (width : OffsetWidth) (parts : List Part) :
    Except BlockError (List Nat) :=
  (partStarts (headerSize width parts.length) parts).mapM fun start =>
    if width.limit < start then .error (.offsetOverflow tag.name start) else .ok start

/-- The bytes of a block in front of its parts. -/
def headerBytes (tag : Tag) (width : OffsetWidth) (parts : List Part) :
    Except BlockError Bytes := do
  let size := headerSize width parts.length + Part.sizeAll 0 parts
  if 0x100000000 ≤ size then throw (.tooLarge tag.name size)
  let table ← offsets tag width parts
  return tag.bytes ++ Bytes.big 4 size ++ table.flatMap (Bytes.little width.bytes)

mutual

/-- The bytes of a part. -/
def Part.write : Part → Except BlockError Bytes
  | .raw bytes => .ok bytes
  | .block tag width parts => do
    let header ← headerBytes tag width parts
    let body ← Part.writeAll [] parts
    return header ++ body

/-- The bytes of parts, behind those in `taken` (last first). -/
def Part.writeAll (taken : List Bytes) : List Part → Except BlockError Bytes
  | [] => .ok taken.reverse.flatten
  | part :: rest => do
    let bytes ← part.write
    Part.writeAll (bytes :: taken) rest

end

/-- A block. -/
structure Block where
  tag : Tag
  width : OffsetWidth
  parts : List Part
  deriving Repr, Inhabited

namespace Block

/-- A block that holds one row of bytes. -/
def leaf (tag : Tag) (bytes : Bytes) : Block :=
  ⟨tag, .short, [.raw bytes]⟩

/-- A block as a part of another. -/
def toPart (block : Block) : Part :=
  .block block.tag block.width block.parts

/-- A block whose parts can lie far apart. -/
def container (tag : Tag) (blocks : List Block) : Block :=
  ⟨tag, .long, blocks.map toPart⟩

/-- How many bytes a block takes. -/
def size (block : Block) : Nat :=
  block.toPart.size

/-- The bytes of a block. -/
def toBytes (block : Block) : Except BlockError Bytes := do
  let bytes ← block.toPart.write
  if bytes.length ≠ block.size then
    throw (.sizeMismatch block.tag.name block.size bytes.length)
  return bytes

end Block

end RoomForge.Resource
