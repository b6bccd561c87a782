import RoomForge.Proofs.GameFile

set_option autoImplicit false

/-! # Which masks can be packed

All strips of a mask take the same number of bytes: its rows and a count for every 127 of them
(specification, section 4.5). So the strips start at even distances, and a mask can be written if
the last of them starts within reach of a table entry: `masks_pack_within_reach`. How far that is
depends on width and height together, and it is less than the largest size that a mask can have.
-/

namespace RoomForge

namespace Picture.Strip

/-- Rows take a byte each, and segments one more. -/
theorem length_segments (rows : Bytes) :
    (segments rows).length = rows.length + (rows.length + 126) / 127 := by
  fun_induction segments rows with
  | case1 rows hrows =>
    rw [List.isEmpty_iff.mp hrows]
    rfl
  | case2 rows hrows head ih =>
    have hpos : rows.length ≠ 0 := by simpa using hrows
    have hhead : head.length = min 127 rows.length := List.length_take
    rw [List.length_cons, List.length_append, ih, List.length_drop, hhead, segmentRows]
    omega

theorem length_encode (mask : Mask) (strip : Nat) :
    (encode mask strip).length = mask.height.toNat + (mask.height.toNat + 126) / 127 := by
  rw [encode, length_segments, List.length_map, List.length_range]

end Picture.Strip

namespace Resource

open RoomForge.Picture

/-! ## Tables that fail -/

section

variable (block : Block) {fault : BlockError}

/-- A table fails at a part that starts out of its reach. -/
theorem offsets_eq_error (h : offsets block.tag block.width block.parts = .error fault) :
    ∃ index < block.parts.length, block.width.limit < block.start index ∧
      fault = .offsetOverflow block.tag.name (block.start index) := by
  rw [offsets, block.partStarts_eq, mapM_eq_error_iff] at h
  obtain ⟨index, start, hstart, hfault, -⟩ := h
  have hindex : index < block.parts.length := by
    simpa using (List.getElem?_eq_some_iff.mp hstart).1
  obtain rfl : block.start index = start := by simpa [hindex] using hstart
  split at hfault
  · next hfar => exact ⟨index, hindex, hfar, (Except.error.inj hfault).symm⟩
  · exact absurd hfault (by simp)

/-- The header of a block that is not too large fails as its table does. -/
theorem offsets_of_headerBytes_error (hsize : block.size < 2 ^ 32)
    (h : headerBytes block.tag block.width block.parts = .error fault) :
    offsets block.tag block.width block.parts = .error fault := by
  have hcounted : headerSize block.width block.parts.length + Part.sizeAll 0 block.parts =
      block.size := by
    rw [Part.sizeAll_eq, Nat.zero_add, Block.size_eq]
    rfl
  have hsmall : ¬ 0x100000000 ≤ block.size := Nat.not_le.mpr hsize
  unfold headerBytes at h
  simp only [hcounted, if_neg hsmall] at h
  rcases bind_eq_error_iff.mp h with htable | ⟨table, -, hbytes⟩
  · exact htable
  · exact absurd hbytes (by simp [pure, Except.pure])

end

/-! ## Parts at even distances -/

/-- A block with raw parts only. -/
def rawBlock (tag : Tag) (raws : List Bytes) : Block :=
  ⟨tag, .short, raws.map .raw⟩

section

variable (tag : Tag) {raws : List Bytes} {size : Nat}

theorem length_parts_rawBlock : (rawBlock tag raws).parts.length = raws.length :=
  List.length_map _

/-- Raw parts can always be written. -/
theorem forall₂_write_raw (raws : List Bytes) :
    List.Forall₂ (fun part piece => part.write = .ok piece) (raws.map Part.raw) raws := by
  rw [List.forall₂_map_left_iff, List.forall₂_same]
  intro raw _
  rw [Part.write]

theorem exists_toBytes_rawBlock_iff :
    (∃ bytes, (rawBlock tag raws).toBytes = .ok bytes) ↔ (rawBlock tag raws).Fits := by
  simp only [Block.toBytes_eq_write, Block.write_eq_ok_iff]
  constructor
  · rintro ⟨bytes, hfits, -⟩
    exact hfits
  · intro hfits
    exact ⟨_, hfits, raws, forall₂_write_raw raws, rfl⟩

/-- What keeps a block of raw parts from being written is its header. -/
theorem headerBytes_of_toBytes_error {fault : BlockError}
    (h : (rawBlock tag raws).toBytes = .error fault) :
    headerBytes tag .short (raws.map .raw) = .error fault := by
  rw [Block.toBytes_eq_write, Block.toPart, Part.write, bind_eq_error_iff] at h
  rcases h with hheader | ⟨header, -, hrest⟩
  · exact hheader
  · have hbody : Part.writeAll [] (raws.map .raw) = .ok raws.flatten :=
      Part.writeAll_eq_ok_iff.mpr ⟨raws, forall₂_write_raw raws, rfl⟩
    rw [rawBlock, bind_of_eq_ok hbody] at hrest
    exact absurd hrest (by simp [pure, Except.pure])

/-- Parts of one size start at even distances. -/
theorem start_rawBlock (hsize : ∀ raw ∈ raws, raw.length = size) {index : Nat}
    (hindex : index ≤ raws.length) :
    (rawBlock tag raws).start index = 8 + 2 * raws.length + index * size := by
  have hsizes : ((rawBlock tag raws).parts.take index).map Part.size =
      List.replicate index size := by
    rw [rawBlock, List.eq_replicate_iff, ← List.map_take, List.map_map]
    refine ⟨by simp [Nat.min_eq_left hindex], fun found hfound => ?_⟩
    obtain ⟨raw, hraw, rfl⟩ := List.mem_map.mp hfound
    rw [Function.comp_apply, Part.size, hsize raw (List.mem_of_mem_take hraw)]
  rw [Block.start, hsizes, length_parts_rawBlock, List.sum_replicate_nat]
  rfl

theorem size_rawBlock (hsize : ∀ raw ∈ raws, raw.length = size) :
    (rawBlock tag raws).size = 8 + 2 * raws.length + raws.length * size := by
  rw [← Block.start_length, length_parts_rawBlock, start_rawBlock tag hsize (Nat.le_refl _)]

/-- It is the last part whose start decides whether a block fits. -/
theorem fits_rawBlock_iff (hsize : ∀ raw ∈ raws, raw.length = size) (hsmall : size < 2 ^ 31) :
    (rawBlock tag raws).Fits ↔
      raws.length = 0 ∨ 8 + 2 * raws.length + (raws.length - 1) * size ≤ 65535 := by
  constructor
  · intro hfits
    rw [or_iff_not_imp_left]
    intro hparts
    have hlast := hfits.starts (raws.length - 1) (by rw [length_parts_rawBlock]; omega)
    rwa [start_rawBlock tag hsize (Nat.sub_le _ _)] at hlast
  · intro hlast
    -- Behind the start of the last part there is one part more.
    have htotal : raws.length * size ≤ (raws.length - 1) * size + size := by
      rw [← Nat.succ_mul]
      exact Nat.mul_le_mul_right size (by omega)
    have hnone : raws.length = 0 → raws.length * size = 0 := by
      intro hnone
      rw [hnone, Nat.zero_mul]
    constructor
    · rw [size_rawBlock tag hsize]
      omega
    · intro index hindex
      rw [length_parts_rawBlock] at hindex
      have hmono : index * size ≤ (raws.length - 1) * size :=
        Nat.mul_le_mul_right size (by omega)
      have hlimit : (rawBlock tag raws).width.limit = 65535 := rfl
      rw [start_rawBlock tag hsize (Nat.le_of_lt hindex), hlimit]
      omega

/-- A block of raw parts that is not too large fails at a part that starts out of reach. -/
theorem toBytes_rawBlock_eq_error (hsize : ∀ raw ∈ raws, raw.length = size)
    (hlarge : 8 + 2 * raws.length + raws.length * size < 2 ^ 32) {fault : BlockError}
    (h : (rawBlock tag raws).toBytes = .error fault) :
    ∃ index < raws.length, 65535 < 8 + 2 * raws.length + index * size ∧
      fault = .offsetOverflow tag.name (8 + 2 * raws.length + index * size) := by
  have htable : offsets tag .short (raws.map .raw) = .error fault := by
    refine offsets_of_headerBytes_error (rawBlock tag raws) ?_ (headerBytes_of_toBytes_error tag h)
    rwa [size_rawBlock tag hsize]
  obtain ⟨index, hindex, hfar, rfl⟩ := offsets_eq_error (rawBlock tag raws) htable
  rw [length_parts_rawBlock] at hindex
  rw [start_rawBlock tag hsize (Nat.le_of_lt hindex)] at hfar ⊢
  exact ⟨index, hindex, hfar, rfl⟩

end

/-! ## Masks -/

/-- The bytes of a strip of a mask. -/
def stripSize (mask : Mask) : Nat :=
  mask.height.toNat + (mask.height.toNat + 126) / 127

theorem length_of_mem_toStrips {mask : Mask} {strip : Bytes} (h : strip ∈ mask.toStrips) :
    strip.length = stripSize mask := by
  obtain ⟨index, -, rfl⟩ := List.mem_map.mp h
  exact Strip.length_encode mask index

theorem length_toStrips (mask : Mask) : mask.toStrips.length = (mask.width.toNat + 7) / 8 := by
  rw [Mask.toStrips, List.length_map, List.length_range]
  rfl

/-- The number of a mask has two digits. -/
theorem exists_maskBlock_iff {mask : Mask} {index : Nat} :
    (∃ block, maskBlock mask index = .ok block) ↔ index ≤ 99 := by
  unfold maskBlock Tag.indexed
  by_cases hindex : 99 < index
  · rw [if_pos hindex]
    exact iff_of_false (by simp [bind, Except.bind]) (Nat.not_le.mpr hindex)
  · rw [if_neg hindex]
    exact iff_of_true ⟨_, rfl⟩ (Nat.not_lt.mp hindex)

theorem eq_rawBlock_of_maskBlock {mask : Mask} {index : Nat} {block : Block}
    (h : maskBlock mask index = .ok block) : block = rawBlock block.tag mask.toStrips := by
  obtain ⟨tag, -, hblock⟩ := bind_eq_ok_iff.mp h
  obtain rfl := Except.ok.inj hblock
  rfl

/-- No mask is too large for the size of a block. -/
theorem size_maskBlock_lt (mask : Mask) :
    stripSize mask < 2 ^ 31 ∧
      8 + 2 * mask.toStrips.length + mask.toStrips.length * stripSize mask < 2 ^ 32 := by
  have hwidth := mask.width.toNat_lt
  have hheight := mask.height.toNat_lt
  have hsize : stripSize mask ≤ 66052 := by
    unfold stripSize
    omega
  have hcount : mask.toStrips.length ≤ 8192 := by
    rw [length_toStrips]
    omega
  have hproduct : mask.toStrips.length * stripSize mask ≤ 8192 * 66052 :=
    Nat.mul_le_mul hcount hsize
  exact ⟨by omega, by omega⟩

/-- A mask that is written is found by cutting its block at the table. -/
theorem openBlock_of_maskBlock {mask : Mask} {index : Nat} {block : Block} {bytes : Bytes}
    (h : maskBlock mask index = .ok block) (hbytes : block.toBytes = .ok bytes) :
    openBlock bytes = some (block.tag, mask.toStrips) := by
  obtain ⟨tag, htag, hblock⟩ := bind_eq_ok_iff.mp h
  obtain rfl := Except.ok.inj hblock
  rw [Block.toBytes_eq_write] at hbytes
  obtain ⟨pieces, hpieces, hopen⟩ := openBlock_of_write (indexed_ok (by decide) htag).1 hbytes
  rw [hopen, eq_of_write_raw hpieces]

/-- Which masks can be packed. The number of a mask has at most two digits; its block then has a
part for every eight columns, all of the same size; it can be written if the last part starts within
reach of the table, and fails at a part out of reach otherwise; and cut at the table, what was
written describes the mask. -/
theorem masks_pack_within_reach (mask : Mask) (index count size : Nat)
    (hcount : count = (mask.width.toNat + 7) / 8)
    (hsize : size = mask.height.toNat + (mask.height.toNat + 126) / 127) :
    ((∃ block, maskBlock mask index = .ok block) ↔ index ≤ 99) ∧
      ∀ block, maskBlock mask index = .ok block →
        block.parts.length = count ∧
        (∀ part ∈ block.parts, ∃ bytes, part = .raw bytes ∧ bytes.length = size) ∧
        ((∃ bytes, block.toBytes = .ok bytes) ↔
          count = 0 ∨ 8 + 2 * count + (count - 1) * size ≤ 65535) ∧
        (∀ fault, block.toBytes = .error fault → ∃ strip < count,
          65535 < 8 + 2 * count + strip * size ∧
            fault = .offsetOverflow block.tag.name (8 + 2 * count + strip * size)) ∧
        ∀ bytes, block.toBytes = .ok bytes → ∃ strips, openBlock bytes = some (block.tag, strips) ∧
          Mask.ofStrips? strips mask.width mask.height = some mask := by
  obtain rfl : count = mask.toStrips.length := by rw [hcount, length_toStrips]
  obtain rfl : size = stripSize mask := hsize
  refine ⟨exists_maskBlock_iff, fun block hblock => ?_⟩
  have hraw := eq_rawBlock_of_maskBlock hblock
  have hsizes : ∀ strip ∈ mask.toStrips, strip.length = stripSize mask :=
    fun strip => length_of_mem_toStrips
  obtain ⟨hsmall, hlarge⟩ := size_maskBlock_lt mask
  refine ⟨?_, ?_, ?_, ?_, ?_⟩
  · rw [hraw, length_parts_rawBlock]
  · intro part hpart
    rw [hraw] at hpart
    obtain ⟨strip, hstrip, rfl⟩ := List.mem_map.mp hpart
    exact ⟨strip, rfl, hsizes strip hstrip⟩
  · rw [hraw, exists_toBytes_rawBlock_iff, fits_rawBlock_iff _ hsizes hsmall]
  · intro fault hfault
    rw [hraw] at hfault
    exact toBytes_rawBlock_eq_error block.tag hsizes hlarge hfault
  · intro bytes hbytes
    exact ⟨_, openBlock_of_maskBlock hblock hbytes, mask.ofStrips?_toStrips⟩

/-- Of masks with two strips, those of up to 65011 rows can be written. -/
theorem tall_masks_pack_up_to_their_limit :
    (∃ block bytes, maskBlock (.clear 16 65011) 99 = .ok block ∧ block.toBytes = .ok bytes) ∧
      ∃ block, maskBlock (.clear 16 65012) 0 = .ok block ∧
        block.toBytes = .error (.offsetOverflow block.tag.name 65536) := by
  constructor
  · obtain ⟨hnumber, hpacks⟩ := masks_pack_within_reach (.clear 16 65011) 99 2 65523 rfl rfl
    obtain ⟨block, hblock⟩ := hnumber.mpr (by decide)
    obtain ⟨-, -, hwritten, -, -⟩ := hpacks block hblock
    obtain ⟨bytes, hbytes⟩ := hwritten.mpr (by decide)
    exact ⟨block, bytes, hblock, hbytes⟩
  · obtain ⟨hnumber, hpacks⟩ := masks_pack_within_reach (.clear 16 65012) 0 2 65524 rfl rfl
    obtain ⟨block, hblock⟩ := hnumber.mpr (by decide)
    obtain ⟨-, -, hwritten, hfails, -⟩ := hpacks block hblock
    refine ⟨block, hblock, ?_⟩
    cases hbytes : block.toBytes with
    | ok bytes => exact absurd (hwritten.mp ⟨bytes, hbytes⟩) (by decide)
    | error fault =>
      obtain ⟨strip, hstrip, hfar, rfl⟩ := hfails fault hbytes
      obtain rfl : strip = 1 := by omega
      rfl

end Resource

end RoomForge
