import RoomForge.Proofs.Fallible
import RoomForge.Proofs.Fields
import RoomForge.Resource.Block

set_option autoImplicit false

/-! # Blocks describe themselves

A block that can be written is found again in its bytes: they begin with the tag and the size, and
the table says where each part starts, which is where the part before it ends (specification,
section 4.5). Blocks can be written if their numbers fit the fields that hold them, and the same
goes for all blocks inside of them: `written_blocks_describe_themselves`.

Beyond the section, a block whose size does not fit its field is refused, and the comparison of the
size with the bytes that were written never fails.
-/

namespace RoomForge

/-- The bytes from the index `start` on, up to `finish`. -/
def Bytes.slice (bytes : Bytes) (start finish : Nat) : Bytes :=
  (bytes.take finish).drop start

namespace Bytes

theorem slice_append (front middle back : Bytes) :
    (front ++ middle ++ back).slice front.length (front.length + middle.length) = middle := by
  unfold slice
  rw [← List.length_append, List.take_left, List.drop_left]

/-- One of the pieces that stand between `front` and `back`. -/
theorem slice_flatten (front back : Bytes) {pieces : List Bytes} {index : Nat} {piece : Bytes}
    (h : pieces[index]? = some piece) {start finish : Nat}
    (hstart : start = front.length + ((pieces.take index).map List.length).sum)
    (hfinish : finish = start + piece.length) :
    (front ++ pieces.flatten ++ back).slice start finish = piece := by
  obtain ⟨hlt, rfl⟩ := List.getElem?_eq_some_iff.mp h
  have hsplit : front ++ pieces.flatten ++ back = (front ++ (pieces.take index).flatten) ++
      pieces[index] ++ ((pieces.drop (index + 1)).flatten ++ back) := by
    conv_lhs => rw [← List.take_append_drop index pieces, List.drop_eq_getElem_cons hlt]
    simp only [List.flatten_append, List.flatten_cons, List.append_assoc]
  have hlength : start = (front ++ (pieces.take index).flatten).length := by
    rw [List.length_append, List.length_flatten, hstart]
  rw [hsplit, hfinish, hlength]
  exact slice_append _ _ _

end Bytes

namespace Resource

/-! ## What fits -/

/-- The start of a part: behind the header and the parts before it. -/
def Block.start (block : Block) (index : Nat) : Nat :=
  8 + block.width.bytes * block.parts.length + ((block.parts.take index).map Part.size).sum

/-- The size and the starts of the parts fit the fields that hold them. -/
structure Block.Fits (block : Block) : Prop where
  size : block.size ≤ 2 ^ 32 - 1
  starts : ∀ index < block.parts.length, block.start index ≤ block.width.limit

/-- The blocks that a part holds: the part itself, if it is one, and those that its parts hold. -/
inductive Part.Holds : Part → Block → Prop where
  | self (tag : Tag) (width : OffsetWidth) (parts : List Part) :
      Holds (.block tag width parts) ⟨tag, width, parts⟩
  | nested {tag : Tag} {width : OffsetWidth} {parts : List Part} {part : Part} {inner : Block}
      (hpart : part ∈ parts) (hinner : Holds part inner) : Holds (.block tag width parts) inner

/-! ## Reading -/

/-- The entry of a part in the table of a block's bytes. -/
def tableEntry (width : OffsetWidth) (bytes : Bytes) (index : Nat) : Nat :=
  Bytes.ofLittle (bytes.slice (8 + width.bytes * index) (8 + width.bytes * (index + 1)))

/-- The end of a part of a block with `count` parts: the entry behind its own, or the end of the
block. -/
def tableEnd (width : OffsetWidth) (count : Nat) (bytes : Bytes) (index : Nat) : Nat :=
  if index + 1 < count then tableEntry width bytes (index + 1) else bytes.length

/-- The bytes of a part, as the table finds them. -/
def partBytes (block : Block) (bytes : Bytes) (index : Nat) : Bytes :=
  bytes.slice (tableEntry block.width bytes index)
    (tableEnd block.width block.parts.length bytes index)

/-- All of a block can be read off its bytes. -/
structure Block.DescribedBy (block : Block) (bytes : Bytes) : Prop where
  length : bytes.length = block.size
  tag : bytes.slice 0 4 = block.tag.bytes
  size : Bytes.ofBig (bytes.slice 4 8) = block.size
  entries : ∀ index < block.parts.length, tableEntry block.width bytes index = block.start index
  /-- Raw parts stand in the bytes as they are. -/
  raw : ∀ (index : Nat) (raw : Bytes), block.parts[index]? = some (.raw raw) →
    partBytes block bytes index = raw
  /-- Nested blocks stand in the bytes as they would be written alone. -/
  nested : ∀ (index : Nat) (inner : Block), block.parts[index]? = some inner.toPart →
    inner.toBytes = .ok (partBytes block bytes index)

/-! ## Sizes and starts -/

/-- Induction on parts, with a hypothesis for every part of a block. -/
@[elab_as_elim]
theorem Part.induction {motive : Part → Prop} (raw : ∀ bytes, motive (.raw bytes))
    (block : ∀ tag width parts, (∀ part ∈ parts, motive part) → motive (.block tag width parts))
    (part : Part) : motive part := by
  refine @Part.rec motive (fun parts => ∀ part ∈ parts, motive part) raw block ?_ ?_ part
  · intro part hpart
    exact absurd hpart List.not_mem_nil
  · intro head tail hhead htail part hpart
    rcases List.mem_cons.mp hpart with rfl | hmem
    · exact hhead
    · exact htail part hmem

theorem Part.sizeAll_eq (sum : Nat) (parts : List Part) :
    Part.sizeAll sum parts = sum + (parts.map Part.size).sum := by
  induction parts generalizing sum with
  | nil => simp [Part.sizeAll]
  | cons part rest ih =>
    rw [Part.sizeAll, ih, List.map_cons, List.sum_cons, Nat.add_assoc]

theorem Block.size_eq (block : Block) :
    block.size = 8 + block.width.bytes * block.parts.length + (block.parts.map Part.size).sum := by
  unfold Block.size Block.toPart
  rw [Part.size, Part.sizeAll_eq, Nat.zero_add]
  rfl

/-- Behind its last part a block ends. -/
theorem Block.start_length (block : Block) : block.start block.parts.length = block.size := by
  rw [Block.start, Block.size_eq, List.take_length]

/-- The table lists the starts of all parts. -/
theorem partStarts_eq (start : Nat) (parts : List Part) :
    partStarts start parts =
      (List.range parts.length).map fun index =>
        start + ((parts.take index).map Part.size).sum := by
  induction parts generalizing start with
  | nil => rfl
  | cons part rest ih =>
    rw [partStarts, ih, List.length_cons, List.range_succ_eq_map, List.map_cons, List.map_map]
    simp [Function.comp_def, Nat.add_assoc]

theorem Block.partStarts_eq (block : Block) :
    partStarts (headerSize block.width block.parts.length) block.parts =
      (List.range block.parts.length).map block.start :=
  Resource.partStarts_eq _ _

/-! ## Headers -/

/-- The bytes in front of a block's parts. -/
def Block.header (block : Block) : Bytes :=
  block.tag.bytes ++ Bytes.big 4 block.size ++
    ((List.range block.parts.length).map block.start).flatMap (Bytes.little block.width.bytes)

theorem length_flatMap_little (width : Nat) (numbers : List Nat) :
    (numbers.flatMap (Bytes.little width)).length = width * numbers.length := by
  simp [List.length_flatMap, Nat.mul_comm]

theorem Block.length_header (block : Block) :
    block.header.length = 8 + block.width.bytes * block.parts.length := by
  unfold Block.header
  rw [List.length_append, List.length_append, length_flatMap_little, List.length_map,
    List.length_range, Bytes.length_big]
  rfl

/-- The table is made if every start fits. -/
theorem offsets_eq_ok_iff {block : Block} {table : List Nat} :
    offsets block.tag block.width block.parts = .ok table ↔
      (∀ index < block.parts.length, block.start index ≤ block.width.limit) ∧
        table = (List.range block.parts.length).map block.start := by
  have hchecked : ∀ (starts table : List Nat),
      (starts.mapM fun start =>
        if block.width.limit < start then
          Except.error (BlockError.offsetOverflow block.tag.name start)
        else Except.ok start) = .ok table ↔
      (∀ start ∈ starts, start ≤ block.width.limit) ∧ table = starts := by
    intro starts table
    rw [mapM_eq_ok_iff]
    induction starts generalizing table with
    | nil => simp
    | cons start rest ih =>
      rw [List.forall₂_cons_left_iff]
      by_cases hlimit : block.width.limit < start
      · simp [hlimit, Nat.not_le_of_lt hlimit]
      · simp [hlimit, ih, Nat.le_of_not_lt hlimit, and_assoc]
  unfold offsets
  rw [hchecked, block.partStarts_eq]
  simp

theorem headerBytes_eq_ok_iff {block : Block} {bytes : Bytes} :
    headerBytes block.tag block.width block.parts = .ok bytes ↔
      block.Fits ∧ bytes = block.header := by
  have hsize : headerSize block.width block.parts.length + Part.sizeAll 0 block.parts =
      block.size := by
    rw [Block.size_eq, Part.sizeAll_eq, Nat.zero_add]
    rfl
  unfold headerBytes
  simp only [hsize]
  by_cases hlarge : 0x100000000 ≤ block.size
  · rw [if_pos hlarge]
    constructor
    · intro h
      cases h
    · rintro ⟨hfits, _⟩
      have hle := hfits.size
      omega
  · rw [if_neg hlarge]
    constructor
    · intro h
      obtain ⟨table, htable, hbytes⟩ := bind_eq_ok_iff.mp h
      obtain ⟨hstarts, rfl⟩ := offsets_eq_ok_iff.mp htable
      exact ⟨⟨by omega, hstarts⟩, (Except.ok.inj hbytes).symm⟩
    · rintro ⟨hfits, rfl⟩
      exact bind_eq_ok_iff.mpr ⟨_, offsets_eq_ok_iff.mpr ⟨hfits.starts, rfl⟩, rfl⟩

/-! ## Writing -/

/-- Parts are written one behind the other. -/
theorem Part.writeAll_eq_ok_iff {taken : List Bytes} {parts : List Part} {bytes : Bytes} :
    Part.writeAll taken parts = .ok bytes ↔
      ∃ pieces, List.Forall₂ (fun part piece => part.write = .ok piece) parts pieces ∧
        bytes = taken.reverse.flatten ++ pieces.flatten := by
  induction parts generalizing taken with
  | nil =>
    rw [Part.writeAll]
    constructor
    · intro h
      exact ⟨[], .nil, by simpa using (Except.ok.inj h).symm⟩
    · rintro ⟨pieces, hpieces, rfl⟩
      cases hpieces
      simp
  | cons part rest ih =>
    rw [Part.writeAll, bind_eq_ok_iff]
    constructor
    · rintro ⟨piece, hpiece, hrest⟩
      obtain ⟨pieces, hpieces, rfl⟩ := ih.mp hrest
      exact ⟨piece :: pieces, .cons hpiece hpieces, by simp⟩
    · rintro ⟨pieces, hpieces, rfl⟩
      cases hpieces with
      | @cons _ piece _ pieces hpiece hpieces =>
        exact ⟨piece, hpiece, ih.mpr ⟨pieces, hpieces, by simp⟩⟩

/-- A block is its header and its parts, one behind the other. -/
theorem Block.write_eq_ok_iff {block : Block} {bytes : Bytes} :
    block.toPart.write = .ok bytes ↔ block.Fits ∧
      ∃ pieces, List.Forall₂ (fun part piece => part.write = .ok piece) block.parts pieces ∧
        bytes = block.header ++ pieces.flatten := by
  unfold Block.toPart
  rw [Part.write, bind_eq_ok_iff]
  constructor
  · rintro ⟨header, hheader, hrest⟩
    obtain ⟨body, hbody, hbytes⟩ := bind_eq_ok_iff.mp hrest
    obtain ⟨hfits, rfl⟩ := headerBytes_eq_ok_iff.mp hheader
    obtain ⟨pieces, hpieces, rfl⟩ := Part.writeAll_eq_ok_iff.mp hbody
    exact ⟨hfits, pieces, hpieces, (Except.ok.inj hbytes).symm⟩
  · rintro ⟨hfits, pieces, hpieces, rfl⟩
    refine ⟨block.header, headerBytes_eq_ok_iff.mpr ⟨hfits, rfl⟩, ?_⟩
    exact bind_eq_ok_iff.mpr ⟨_, Part.writeAll_eq_ok_iff.mpr ⟨pieces, hpieces, rfl⟩, rfl⟩

/-- Pieces that are as long as their parts say add up to as much. -/
theorem map_length_pieces {parts : List Part} {pieces : List Bytes}
    (hlength : ∀ part ∈ parts, ∀ piece, part.write = .ok piece → piece.length = part.size)
    (h : List.Forall₂ (fun part piece => part.write = .ok piece) parts pieces) :
    pieces.map List.length = parts.map Part.size := by
  induction h with
  | nil => rfl
  | cons hpiece _ ih =>
    have hhead := hlength _ List.mem_cons_self _ hpiece
    have htail := ih fun part hpart => hlength part (List.mem_cons_of_mem _ hpart)
    rw [List.map_cons, List.map_cons, hhead, htail]

/-- A part takes as many bytes as its size says. -/
theorem Part.length_of_write {part : Part} {bytes : Bytes} (h : part.write = .ok bytes) :
    bytes.length = part.size := by
  induction part using Part.induction generalizing bytes with
  | raw raw =>
    rw [Part.write] at h
    rw [← Except.ok.inj h, Part.size]
  | block tag width parts ih =>
    have hwrite : (Block.mk tag width parts).toPart.write = .ok bytes := h
    obtain ⟨_, pieces, hpieces, rfl⟩ := Block.write_eq_ok_iff.mp hwrite
    have hlengths := map_length_pieces (fun part hpart piece => ih part hpart) hpieces
    rw [List.length_append, Block.length_header, List.length_flatten, hlengths, ← Block.size_eq]
    rfl

/-- A part can be written if all blocks that it holds fit. -/
theorem Part.exists_write_iff (part : Part) :
    (∃ bytes, part.write = .ok bytes) ↔ ∀ inner, part.Holds inner → inner.Fits := by
  induction part using Part.induction with
  | raw raw =>
    refine iff_of_true ⟨raw, by rw [Part.write]⟩ ?_
    intro inner hinner
    cases hinner
  | block tag width parts ih =>
    constructor
    · rintro ⟨bytes, hbytes⟩ inner hinner
      have hwrite : (Block.mk tag width parts).toPart.write = .ok bytes := hbytes
      obtain ⟨hfits, pieces, hpieces, _⟩ := Block.write_eq_ok_iff.mp hwrite
      cases hinner with
      | self => exact hfits
      | nested hpart hinner =>
        obtain ⟨index, hlt, rfl⟩ := List.mem_iff_getElem.mp hpart
        have hpiece := hpieces.get hlt (hpieces.length_eq ▸ hlt)
        exact (ih _ hpart).mp ⟨_, hpiece⟩ inner hinner
    · intro hfits
      obtain ⟨pieces, hpieces⟩ := exists_forall₂ fun part hpart =>
        (ih part hpart).mpr fun inner hinner => hfits inner (.nested hpart hinner)
      have hself := hfits _ (.self tag width parts)
      exact ⟨_, Block.write_eq_ok_iff.mpr ⟨hself, pieces, hpieces, rfl⟩⟩

/-- Writing a block takes as many bytes as were counted before. -/
theorem Block.toBytes_eq_write (block : Block) : block.toBytes = block.toPart.write := by
  unfold Block.toBytes
  cases hwrite : block.toPart.write with
  | error fault => rfl
  | ok bytes =>
    have hlength : bytes.length = block.size := Part.length_of_write hwrite
    show (if bytes.length ≠ block.size then _ else _) = _
    rw [if_neg (not_not.mpr hlength)]
    rfl

/-- The failure of a block whose bytes are not as many as were counted. -/
def BlockError.IsMismatch : BlockError → Prop
  | .sizeMismatch .. => True
  | _ => False

theorem headerBytes_avoids (tag : Tag) (width : OffsetWidth) (parts : List Part) :
    Avoids BlockError.IsMismatch (headerBytes tag width parts) := by
  unfold headerBytes
  dsimp only
  split
  · show Avoids BlockError.IsMismatch (.error (.tooLarge tag.name _))
    exact .error id
  · refine Avoids.bind (.mapM fun start _ => ?_) fun table _ => .ok
    split
    · exact .error id
    · exact .ok

theorem Part.write_avoids (part : Part) : Avoids BlockError.IsMismatch part.write := by
  induction part using Part.induction with
  | raw raw =>
    rw [Part.write]
    exact .ok
  | block tag width parts ih =>
    have hall : ∀ taken, Avoids BlockError.IsMismatch (Part.writeAll taken parts) := by
      induction parts with
      | nil => exact fun taken => .ok
      | cons part rest ihRest =>
        intro taken
        rw [Part.writeAll]
        refine (ih part List.mem_cons_self).bind fun bytes _ => ?_
        exact ihRest (fun other hother => ih other (List.mem_cons_of_mem part hother)) _
    rw [Part.write]
    refine (headerBytes_avoids tag width parts).bind fun header _ => ?_
    exact (hall []).bind fun body _ => .ok

/-! ## Reading what was written -/

section

variable {block : Block} {pieces : List Bytes}

/-- The entries of the table are the starts of the parts. -/
theorem tableEntry_eq (hfits : block.Fits) (body : Bytes) {index : Nat}
    (hindex : index < block.parts.length) :
    tableEntry block.width (block.header ++ body) index = block.start index := by
  obtain ⟨entries, hentries⟩ : ∃ entries, entries = (List.range block.parts.length).map fun index =>
      Bytes.little block.width.bytes (block.start index) := ⟨_, rfl⟩
  have hentry : entries[index]? = some (Bytes.little block.width.bytes (block.start index)) := by
    simp [hentries, hindex]
  -- All entries are as wide as the first, so the entry is found by its index.
  have hwidths : ((entries.take index).map List.length).sum = block.width.bytes * index := by
    have hconst : (entries.take index).map List.length =
        List.replicate index block.width.bytes := by
      simp [hentries, ← List.map_take, Function.comp_def, List.take_range, Nat.le_of_lt hindex]
    rw [hconst, List.sum_replicate_nat, Nat.mul_comm]
  have hheader : block.header = (block.tag.bytes ++ Bytes.big 4 block.size) ++ entries.flatten := by
    rw [Block.header, hentries, List.flatMap_map, List.flatMap_def]
  have hslice := Bytes.slice_flatten (block.tag.bytes ++ Bytes.big 4 block.size) body hentry rfl rfl
  rw [← hheader, hwidths, Bytes.length_little] at hslice
  have hfront : (block.tag.bytes ++ Bytes.big 4 block.size).length = 8 := by
    rw [List.length_append, Bytes.length_big]
    rfl
  rw [hfront, Nat.add_assoc, ← Nat.mul_succ] at hslice
  have hlimit : block.start index < 256 ^ block.width.bytes := by
    have hle := hfits.starts index hindex
    have hpower : block.width.limit < 256 ^ block.width.bytes := by
      cases block.width <;> decide
    exact Nat.lt_of_le_of_lt hle hpower
  unfold tableEntry
  rw [hslice, Bytes.ofLittle_little hlimit]

theorem Block.start_succ {index : Nat} {part : Part} (h : block.parts[index]? = some part) :
    block.start (index + 1) = block.start index + part.size := by
  rw [Block.start, Block.start, List.take_add_one, h]
  simp [Nat.add_assoc]

/-- A part ends where the next one starts, and the last one where the block ends. -/
theorem tableEnd_eq (hfits : block.Fits) {body : Bytes}
    (hlength : (block.header ++ body).length = block.size) {index : Nat}
    (hindex : index < block.parts.length) :
    tableEnd block.width block.parts.length (block.header ++ body) index =
      block.start (index + 1) := by
  unfold tableEnd
  split
  · next hnext => exact tableEntry_eq hfits body hnext
  · next hlast =>
    have hend : index + 1 = block.parts.length := by omega
    rw [hlength, hend, Block.start_length]

/-- The table finds the bytes of a part. -/
theorem partBytes_eq (hfits : block.Fits)
    (hpieces : List.Forall₂ (fun part piece => part.write = .ok piece) block.parts pieces)
    {index : Nat} {part : Part} (hpart : block.parts[index]? = some part) :
    part.write = .ok (partBytes block (block.header ++ pieces.flatten) index) := by
  obtain ⟨hindex, rfl⟩ := List.getElem?_eq_some_iff.mp hpart
  have hbound : index < pieces.length := hpieces.length_eq ▸ hindex
  have hpiece : block.parts[index].write = .ok pieces[index] := hpieces.get hindex hbound
  -- Starts are sums of sizes, and the pieces are as long as the sizes say.
  have hlengths := map_length_pieces (fun _ _ _ => Part.length_of_write) hpieces
  have hlength : (block.header ++ pieces.flatten).length = block.size := by
    rw [List.length_append, Block.length_header, List.length_flatten, hlengths, Block.size_eq]
  have hstart : block.start index =
      block.header.length + ((pieces.take index).map List.length).sum := by
    rw [Block.start, Block.length_header, List.map_take, List.map_take, hlengths]
  have hend : block.start (index + 1) = block.start index + pieces[index].length := by
    rw [Block.start_succ hpart, Part.length_of_write hpiece]
  have hslice := Bytes.slice_flatten block.header [] (List.getElem?_eq_getElem hbound) hstart hend
  rw [List.append_nil] at hslice
  unfold partBytes
  rw [tableEntry_eq hfits _ hindex, tableEnd_eq hfits hlength hindex, hslice]
  exact hpiece

/-- A block that was written is described by its bytes. -/
theorem Block.describedBy_of_write {bytes : Bytes} (h : block.toPart.write = .ok bytes) :
    block.DescribedBy bytes := by
  obtain ⟨hfits, pieces, hpieces, rfl⟩ := Block.write_eq_ok_iff.mp h
  constructor
  · exact Part.length_of_write h
  · rw [Block.header, List.append_assoc, List.append_assoc]
    rfl
  · have hlt : block.size < 256 ^ 4 := by
      have hle := hfits.size
      omega
    have hslice := Bytes.slice_append block.tag.bytes (Bytes.big 4 block.size)
      (((List.range block.parts.length).map block.start).flatMap
        (Bytes.little block.width.bytes) ++ pieces.flatten)
    rw [Bytes.length_big, ← List.append_assoc] at hslice
    rw [show (block.header ++ pieces.flatten).slice 4 8 = Bytes.big 4 block.size from hslice,
      Bytes.ofBig_big hlt]
  · exact fun index hindex => tableEntry_eq hfits _ hindex
  · intro index raw hraw
    have hbytes := partBytes_eq hfits hpieces hraw
    rw [Part.write] at hbytes
    exact (Except.ok.inj hbytes).symm
  · intro index inner hinner
    rw [Block.toBytes_eq_write]
    exact partBytes_eq hfits hpieces hinner

end

/-- A block can be written if and only if it and all blocks inside of it fit; the bytes are always
as many as were counted; and they describe the block. -/
theorem written_blocks_describe_themselves (block : Block) :
    ((∃ bytes, block.toBytes = .ok bytes) ↔ ∀ inner, block.toPart.Holds inner → inner.Fits) ∧
      (∀ tag expected written,
        block.toBytes ≠ .error (.sizeMismatch tag expected written)) ∧
      ∀ bytes, block.toBytes = .ok bytes → block.DescribedBy bytes := by
  rw [Block.toBytes_eq_write]
  refine ⟨Part.exists_write_iff block.toPart, ?_, fun bytes => Block.describedBy_of_write⟩
  intro tag expected written hmismatch
  exact Part.write_avoids block.toPart _ hmismatch trivial

/-- A block with a raw part, a nested block with parts of its own, and an empty part. -/
def sampleRoom : Block :=
  ⟨.ofChars 'R' 'O' 'O' 'M', .long,
    [.raw [1, 2], .block (.ofChars 'S' 'C' 'R' 'P') .short [.raw [7], .raw [8, 9]], .raw []]⟩

theorem sampleRoom_describes_itself :
    ∃ bytes, sampleRoom.toBytes = .ok bytes ∧ sampleRoom.DescribedBy bytes := by
  obtain ⟨bytes, hbytes⟩ : ∃ bytes, sampleRoom.toBytes = .ok bytes :=
    exists_ok_of_isOk (by decide +kernel)
  exact ⟨bytes, hbytes, (written_blocks_describe_themselves sampleRoom).2.2 bytes hbytes⟩

end Resource

end RoomForge
