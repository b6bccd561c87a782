import RoomForge.Game.Decoder
import RoomForge.Proofs.Assembly
import RoomForge.Proofs.GameFile
import RoomForge.Proofs.Loaded
import RoomForge.Proofs.Sessions
import RoomForge.Proofs.StripFormat

set_option autoImplicit false

/-! # Built games are consistent

The blocks of a game say the same thing in several places: headers count other blocks, payloads have
the size that a header states, anims point to frames (specification, block tree of section 4.5).
Nothing checks this when the blocks are packed. It follows from what loading has checked
(`Proofs.Loaded`), which compiling and packing do not touch: `built_games_are_consistent`, for every
format of descriptors.
-/

namespace RoomForge.Game

open RoomForge.Picture RoomForge.Room RoomForge.Script

/-! ## From loading to packing -/

/-- Merging colors changes nothing of a costume but where its colors start. -/
theorem exists_of_mem_placeCostumeColors {used : Nat} {costumes : List Costume} {placed : Costume}
    (h : placed ∈ (placeCostumeColors used costumes).1) :
    ∃ costume ∈ costumes, ∃ base, placed = { costume with base } := by
  induction costumes generalizing used with
  | nil => exact absurd h List.not_mem_nil
  | cons costume rest ih =>
    rcases List.mem_cons.mp h with rfl | hmem
    · exact ⟨costume, List.mem_cons_self, _, rfl⟩
    · obtain ⟨other, hother, hplaced⟩ := ih hmem
      exact ⟨other, List.mem_cons_of_mem costume hother, hplaced⟩

/-- Compiling a room keeps what was checked of it. -/
theorem checked_of_made {id : UInt8} {source : Source} {scripts : List Declarations}
    {room : RoomForge.Room} (hmade : Made id source scripts room)
    (h : Checked source.background source.masks source.palette.cycles source.costumes) :
    Checked room.background room.masks room.palette.cycles room.costumes := by
  rw [hmade.eq_room]
  refine ⟨h.masks, h.cycles, fun placed hplaced => ?_⟩
  obtain ⟨costume, hcostume, base, rfl⟩ := exists_of_mem_placeCostumeColors hplaced
  exact ⟨(h.anims costume hcostume).numbered, (h.anims costume hcostume).framed⟩

theorem checked_of_compileGame {sources : List Source} {rooms : List RoomForge.Room}
    (hcompile : (compileGame sources).result = .ok rooms)
    (h : ∀ source ∈ sources,
      Checked source.background source.masks source.palette.cycles source.costumes) :
    rooms.length = sources.length ∧
      ∀ room ∈ rooms, Checked room.background room.masks room.palette.cycles room.costumes := by
  rw [result_compileGame, mapM_eq_ok_iff] at hcompile
  refine ⟨?_, fun room hroom => ?_⟩
  · rw [← hcompile.length_eq, List.length_zipIdx]
  · obtain ⟨⟨source, count⟩, hmem, hresult⟩ := exists_left_of_forall₂ hcompile hroom
    obtain ⟨-, alone, halone, rfl⟩ := roomResult_eq_ok_iff.mp hresult
    obtain ⟨-, scripts, hmade⟩ := Session.compile_eq_ok_iff.mp halone
    have hchecked := checked_of_made hmade (h source (List.fst_mem_of_mem_zipIdx hmem))
    exact ⟨hchecked.masks, hchecked.cycles, hchecked.anims⟩

end RoomForge.Game

namespace RoomForge.Resource

open RoomForge.Game RoomForge.Picture RoomForge.Room

/-! ## Looking into blocks -/

/-- The block that a part is, if it is one. -/
def Part.block? : Part → Option Block
  | .raw _ => none
  | .block tag width parts => some ⟨tag, width, parts⟩

namespace Block

/-- The blocks in a block. -/
def inner (block : Block) : List Block :=
  block.parts.filterMap Part.block?

/-- The blocks in a block with a tag. -/
def tagged (block : Block) (a b c d : Char) : List Block :=
  ofTag (.ofChars a b c d) block.inner

/-- What a reader finds in the payload of a block. -/
def read? {α : Type} (block : Block) (read : Bytes → Option α) : Option α :=
  match block.parts with
  | [.raw payload] => read payload
  | _ => none

/-- What a reader finds in the only block with a tag. -/
def field? {α : Type} (block : Block) (a b c d : Char) (read : Bytes → Option α) : Option α :=
  match block.tagged a b c d with
  | [found] => found.read? read
  | _ => none

/-- The blocks of masks, whose tags differ by their index. -/
def masks (block : Block) : List Block :=
  block.inner.filter fun found => isIndexed 'Z' 'P' found.tag

theorem inner_of_parts {block : Block} {blocks : List Block}
    (h : block.parts = blocks.map toPart) : block.inner = blocks := by
  have hblock : Part.block? ∘ toPart = some := rfl
  rw [inner, h, List.filterMap_map, hblock, List.filterMap_some]

theorem inner_container (tag : Tag) (blocks : List Block) :
    (container tag blocks).inner = blocks :=
  inner_of_parts rfl

end Block

section

variable {α : Type} {groups : List (Tag × List Block)} {block : Block}

theorem Grouped.tagged_eq (h : Grouped groups) (hinner : block.inner = groups.flatMap Prod.snd)
    (a b c d : Char) {blocks : List Block} (hgroup : (.ofChars a b c d, blocks) ∈ groups) :
    block.tagged a b c d = blocks := by
  rw [Block.tagged, hinner]
  exact h.ofTag_eq hgroup

theorem Grouped.field?_eq (h : Grouped groups) (hinner : block.inner = groups.flatMap Prod.snd)
    (a b c d : Char) {payload : Bytes} {read : Bytes → Option α} {value : α}
    (hgroup : (.ofChars a b c d, [leaf a b c d payload]) ∈ groups)
    (hread : read payload = some value) : block.field? a b c d read = some value := by
  rw [Block.field?, h.tagged_eq hinner a b c d hgroup]
  exact hread

/-- A block in front of blocks with other tags is found. -/
theorem field?_container_cons {tag : Tag} {a b c d : Char} {payload : Bytes} {rest : List Block}
    {read : Bytes → Option α} {value : α} (hread : read payload = some value)
    (hrest : ∀ other ∈ rest, other.tag ≠ .ofChars a b c d) :
    (Block.container tag (leaf a b c d payload :: rest)).field? a b c d read = some value := by
  have hfirst : ofTag (.ofChars a b c d) [leaf a b c d payload] = [leaf a b c d payload] :=
    ofTag_eq_self (by simp [leaf, Block.leaf])
  have htagged : (Block.container tag (leaf a b c d payload :: rest)).tagged a b c d =
      [leaf a b c d payload] := by
    rw [Block.tagged, Block.inner_container, ← List.singleton_append, ofTag_append, hfirst,
      ofTag_eq_nil hrest, List.append_nil]
  rw [Block.field?, htagged]
  exact hread

end

/-- A tag with an index ends in its two digits. -/
theorem eq_of_indexed {a b : Char} {index : Nat} {tag : Tag}
    (h : Tag.indexed a.toUInt8 b.toUInt8 index = .ok tag) :
    index < 100 ∧
      tag = .ofChars a b (Nat.digitChar (index / 10)) (Nat.digitChar (index % 10)) := by
  have hdigit : ∀ digit < 10, UInt8.ofNat (48 + digit) = (Nat.digitChar digit).toUInt8 := by
    decide
  unfold Tag.indexed at h
  split at h
  · exact absurd h (by simp)
  · next hindex =>
    obtain rfl := Except.ok.inj h
    rw [hdigit _ (by omega), hdigit _ (by omega)]
    exact ⟨by omega, rfl⟩

/-! ## Consistency -/

/-- The block of mask number `index` in a room with the given header: its tag says the index, and
its strips hold all rows of all columns. -/
structure MaskConsistent (header : RoomHeader) (index : Nat) (mask : Block) : Prop where
  numbered : index < 100 ∧
    mask.tag = .ofChars 'Z' 'P' (Nat.digitChar (index / 10)) (Nat.digitChar (index % 10))
  strips : ∃ strips : List Bytes, mask.parts = strips.map .raw ∧
    strips.length = (header.width.toNat + 7) / 8 ∧
    ∀ strip ∈ strips, ∃ pieces, Strip.CutInto header.height.toNat strip pieces

/-- A room's block agrees with its header and with the block of its picture. -/
structure RoomConsistent (room : Block) (header : RoomHeader) (picture : Block) : Prop where
  header_eq : room.field? 'R' 'M' 'H' 'D' readRoomHeader.whole = some header
  picture_eq : room.tagged 'R' 'M' 'I' 'M' = [picture]
  background : ∃ pixels, picture.field? 'I' 'M' '0' '0' some = some pixels ∧
    pixels.length = header.width.toNat * header.height.toNat
  images : (room.tagged 'O' 'B' 'I' 'M').length = header.objects.toNat
  codes : (room.tagged 'O' 'B' 'C' 'D').length = header.objects.toNat
  ids : ∀ (index : Nat) (images code : Block),
    (room.tagged 'O' 'B' 'I' 'M')[index]? = some images →
    (room.tagged 'O' 'B' 'C' 'D')[index]? = some code → ∃ said,
      images.field? 'I' 'M' 'H' 'D' readImagesHeader.whole = some said ∧
      code.field? 'C' 'D' 'H' 'D' Bytes.readWord.whole = some said.id
  mask_count : picture.masks.length = header.masks.toNat
  masks : ∀ (index : Nat) (mask : Block), picture.masks[index]? = some mask →
    MaskConsistent header index mask
  cycles : ∃ cycles, room.field? 'C' 'Y' 'C' 'L' (Bytes.readMany readCycle) = some cycles ∧
    ∀ (index : Nat) (cycle : CycleRecord), cycles[index]? = some cycle →
      cycle.id.toNat = index + 1

/-- A costume's block agrees with its header. -/
structure CostumeConsistent (costume : Block) (header : CostumeHeader) : Prop where
  header_eq : costume.field? 'C' 'H' 'D' 'R' readCostumeHeader.whole = some header
  anim_count : (costume.tagged 'A' 'N' 'I' 'M').length = header.anims.toNat
  frame_count : (costume.tagged 'F' 'R' 'A' 'M').length = header.frames.toNat
  anims : ∀ (index : Nat) (block : Block), (costume.tagged 'A' 'N' 'I' 'M')[index]? = some block →
    ∃ anim, block.read? readAnim = some anim ∧ anim.id.toNat = index ∧
      ∀ frame ∈ anim.frames, frame.toNat < (costume.tagged 'F' 'R' 'A' 'M').length
  frames : ∀ block ∈ costume.tagged 'F' 'R' 'A' 'M', ∃ (width height : UInt16) (payload : Bytes),
    block.read? some = some payload ∧ payload.take 4 = Bytes.word width ++ Bytes.word height ∧
      payload.length = 4 + width.toNat * height.toNat

/-- A room's file is one room and its costumes, all of which agree with their headers. -/
structure FileConsistent (file : Block) : Prop where
  room : ∃ room header picture, file.tagged 'R' 'O' 'O' 'M' = [room] ∧
    RoomConsistent room header picture
  costumes : ∀ costume ∈ file.tagged 'C' 'O' 'S' 'T', ∃ header, CostumeConsistent costume header

/-! ## Pictures -/

theorem maskConsistent_of_maskBlock {room : RoomForge.Room} {mask : Mask} {index : Nat}
    {block : Block} (hwidth : mask.width = room.background.width)
    (hheight : mask.height = room.background.height) (h : maskBlock mask index = .ok block) :
    MaskConsistent (.of room) index block := by
  simp only [maskBlock, bind_eq_ok_iff] at h
  obtain ⟨tag, htag, hblock⟩ := h
  obtain rfl := Except.ok.inj hblock
  obtain ⟨hcount, hread⟩ := Mask.exists_ofStrips?_iff.mp ⟨mask, mask.ofStrips?_toStrips⟩
  rw [hwidth] at hcount
  rw [hheight] at hread
  refine ⟨eq_of_indexed htag, mask.toStrips, rfl, hcount, fun strip hstrip => ?_⟩
  exact Strip.exists_readRows_iff.mp (hread strip hstrip)

/-- The background and the masks are found in the block of a picture. -/
theorem found_in_picture {room : RoomForge.Room} {picture : Block}
    (h : pictureBlock room = .ok picture) :
    picture.field? 'I' 'M' '0' '0' some = some room.background.pixels ∧
      (room.masks.zipIdx.mapM fun (mask, index) => maskBlock mask index) = .ok picture.masks := by
  obtain ⟨masks, hmasks, rfl⟩ := pictureBlock_ok h
  have htags : ∀ block ∈ masks, isIndexed 'Z' 'P' block.tag = true := by
    intro block hblock
    obtain ⟨numbered, -, hmask⟩ := exists_left_of_forall₂ (mapM_eq_ok_iff.mp hmasks) hblock
    simp only [maskBlock, bind_eq_ok_iff] at hmask
    obtain ⟨tag, htag, hsame⟩ := hmask
    obtain rfl := Except.ok.inj hsame
    exact (indexed_ok (by decide) htag).2
  constructor
  · apply field?_container_cons rfl
    intro other hother hsame
    have htag := htags other hother
    rw [hsame] at htag
    exact absurd htag (by decide)
  · have hfirst : isIndexed 'Z' 'P' (Tag.ofChars 'I' 'M' '0' '0') = false := by decide
    rw [Block.masks, Block.inner_container, List.filter_cons_of_neg, List.filter_eq_self.mpr htags,
      hmasks]
    simpa [leaf, Block.leaf] using hfirst

/-! ## Objects -/

theorem field?_of_objectImageBlock {object : Object} {block : Block}
    (h : objectImageBlock object = .ok block) :
    block.field? 'I' 'M' 'H' 'D' readImagesHeader.whole = some (.of object) := by
  obtain ⟨-, header, images, hheader, himages, rfl⟩ := objectImageBlock_ok h
  apply field?_container_cons hheader.whole_eq
  intro other hother hsame
  obtain ⟨numbered, -, himage⟩ := exists_left_of_forall₂ (mapM_eq_ok_iff.mp himages) hother
  obtain ⟨tag, htag, hleaf⟩ := bind_eq_ok_iff.mp himage
  obtain rfl := Except.ok.inj hleaf
  -- No digit is the letter that a header has in its place.
  obtain ⟨hindex, rfl⟩ := eq_of_indexed htag
  have hdigit : ∀ digit < 10, (Nat.digitChar digit).toUInt8 ≠ 'H'.toUInt8 := by decide
  exact hdigit _ (by omega) (congrArg Tag.third hsame)

theorem field?_objectCodeBlock (object : Object) :
    (objectCodeBlock object).field? 'C' 'D' 'H' 'D' Bytes.readWord.whole = some object.id := by
  have hinner : (objectCodeBlock object).inner = (objectCodeGroups object).flatMap Prod.snd := by
    rw [Block.inner_of_parts (objectCodeBlock_parts object)]
  exact (grouped_objectCode object).field?_eq hinner 'C' 'D' 'H' 'D' (by simp [objectCodeGroups])
    (Bytes.readWord_takes object.id).whole_eq

/-! ## Rooms and costumes -/

theorem roomConsistent_of_roomBlock {room : RoomForge.Room} {block : Block}
    (hchecked : Checked room.background room.masks room.palette.cycles room.costumes)
    (h : (roomBlock room).result = .ok block) :
    ∃ header picture, RoomConsistent block header picture := by
  obtain ⟨header, picture, images, hheader, hpicture, himages, hblock⟩ := roomBlock_ok h
  have hgroups := grouped_room hheader hpicture himages
  have hinner : block.inner = (roomGroups room header picture images).flatMap Prod.snd := by
    rw [hblock, Block.inner_container]
  have himageBlocks : block.tagged 'O' 'B' 'I' 'M' = images :=
    hgroups.tagged_eq hinner 'O' 'B' 'I' 'M' (by simp [roomGroups])
  have hcodeBlocks : block.tagged 'O' 'B' 'C' 'D' = room.objects.map objectCodeBlock :=
    hgroups.tagged_eq hinner 'O' 'B' 'C' 'D' (by simp [roomGroups])
  obtain ⟨hobjectCount, hmaskCount, payload, hpayload, rfl⟩ := headerBlock_ok hheader
  obtain ⟨hbackground, hmasks⟩ := found_in_picture hpicture
  have hobjects : (RoomHeader.of room).objects.toNat = room.objects.length :=
    UInt16.toNat_ofNat_of_lt' hobjectCount
  have hpairs := mapM_eq_ok_iff.mp himages
  refine ⟨.of room, picture, ?_⟩
  constructor
  case header_eq =>
    exact hgroups.field?_eq hinner 'R' 'M' 'H' 'D' (by simp [roomGroups]) hpayload.whole_eq
  case picture_eq => exact hgroups.tagged_eq hinner 'R' 'M' 'I' 'M' (by simp [roomGroups])
  case background => exact ⟨_, hbackground, room.background.sized⟩
  case images => rw [himageBlocks, hobjects, hpairs.length_eq]
  case codes => rw [hcodeBlocks, hobjects, List.length_map]
  case ids =>
    intro index imageBlock codeBlock himage hcode
    rw [himageBlocks] at himage
    rw [hcodeBlocks, List.getElem?_map, Option.map_eq_some_iff] at hcode
    obtain ⟨object, hobject, rfl⟩ := hcode
    obtain ⟨hindex, rfl⟩ := List.getElem?_eq_some_iff.mp hobject
    obtain ⟨hbound, rfl⟩ := List.getElem?_eq_some_iff.mp himage
    exact ⟨_, field?_of_objectImageBlock (hpairs.get hindex hbound), field?_objectCodeBlock _⟩
  case mask_count =>
    rw [← (mapM_eq_ok_iff.mp hmasks).length_eq, List.length_zipIdx]
    exact (UInt8.toNat_ofNat_of_lt' hmaskCount).symm
  case masks =>
    intro index mask hmask
    obtain ⟨drawn, hdrawn, hmaskBlock⟩ := getElem?_of_mapM_zipIdx hmasks hmask
    obtain ⟨hwidth, hheight⟩ := hchecked.masks drawn (List.mem_of_getElem? hdrawn)
    exact maskConsistent_of_maskBlock hwidth hheight hmaskBlock
  case cycles =>
    refine ⟨room.palette.cycles.map CycleRecord.of, ?_, fun index record hrecord => ?_⟩
    · have hread : Bytes.readMany readCycle (room.palette.cycles.flatMap _) =
          some (room.palette.cycles.map CycleRecord.of) :=
        Bytes.readMany_flatMap_map (fun cycle _ => readCycle_takes cycle) (by simp)
      exact hgroups.field?_eq hinner 'C' 'Y' 'C' 'L' (by simp [roomGroups, cyclesBlock]) hread
    · rw [List.getElem?_map, Option.map_eq_some_iff] at hrecord
      obtain ⟨cycle, hcycle, rfl⟩ := hrecord
      exact hchecked.cycles index cycle hcycle

theorem costumeConsistent_of_costumeBlock {costume : Costume} {block : Block}
    (hchecked : AnimsChecked costume) (h : costumeBlock costume = .ok block) :
    ∃ header, CostumeConsistent block header := by
  obtain ⟨hanims, hframes, anims, hblocks, hblock⟩ := costumeBlock_ok h
  have hgroups := grouped_costume hblocks
  have hinner : block.inner = (costumeGroups costume anims).flatMap Prod.snd := by
    rw [hblock, Block.inner_container]
  have hanimBlocks : block.tagged 'A' 'N' 'I' 'M' = anims :=
    hgroups.tagged_eq hinner 'A' 'N' 'I' 'M' (by simp [costumeGroups])
  have hframeBlocks : block.tagged 'F' 'R' 'A' 'M' = costume.frames.map frameBlock :=
    hgroups.tagged_eq hinner 'F' 'R' 'A' 'M' (by simp [costumeGroups])
  have hpairs := mapM_eq_ok_iff.mp hblocks
  refine ⟨.of costume, ?_⟩
  constructor
  case header_eq =>
    exact hgroups.field?_eq hinner 'C' 'H' 'D' 'R' (by simp [costumeGroups, CostumeHeader.of])
      (readCostumeHeader_takes (.of costume)).whole_eq
  case anim_count =>
    rw [hanimBlocks, ← hpairs.length_eq]
    exact (UInt8.toNat_ofNat_of_lt' hanims).symm
  case frame_count =>
    rw [hframeBlocks, List.length_map]
    exact (UInt8.toNat_ofNat_of_lt' hframes).symm
  case anims =>
    intro index inner hanimBlock
    rw [hanimBlocks] at hanimBlock
    rw [hframeBlocks, List.length_map]
    obtain ⟨hbound, rfl⟩ := List.getElem?_eq_some_iff.mp hanimBlock
    have hindex : index < costume.anims.length := hpairs.length_eq ▸ hbound
    have hpacked : animBlock costume.anims[index] = .ok anims[index] := hpairs.get hindex hbound
    have hanim := List.getElem?_eq_getElem hindex
    refine ⟨.of costume.anims[index], ?_, hchecked.numbered index _ hanim,
      hchecked.framed _ (List.mem_of_getElem? hanim)⟩
    simp only [animBlock, bind_eq_ok_iff] at hpacked
    obtain ⟨count, hcount, hsame⟩ := hpacked
    rw [← Except.ok.inj hsame]
    exact readAnim_eq hcount
  case frames =>
    intro inner hframeBlock
    rw [hframeBlocks] at hframeBlock
    obtain ⟨frame, -, rfl⟩ := List.mem_map.mp hframeBlock
    refine ⟨frame.width, frame.height, _, rfl, List.take_left' (by simp), ?_⟩
    simp [frame.sized]
    omega

theorem fileConsistent_of_roomFile {room : RoomForge.Room} {file : Block}
    (hchecked : Checked room.background room.masks room.palette.cycles room.costumes)
    (h : (roomFile room).result = .ok file) : FileConsistent file := by
  obtain ⟨packed, costumes, hpacked, hcostumes, hfile⟩ := roomFile_ok h
  have hgroups := grouped_roomFile hpacked hcostumes
  have hinner : file.inner = [(Tag.ofChars 'R' 'O' 'O' 'M', [packed]),
      (Tag.ofChars 'C' 'O' 'S' 'T', costumes)].flatMap Prod.snd := by
    rw [hfile, Block.inner_container]
    simp
  have htagged : file.tagged 'C' 'O' 'S' 'T' = costumes :=
    hgroups.tagged_eq hinner 'C' 'O' 'S' 'T' (by simp)
  obtain ⟨header, picture, hroom⟩ := roomConsistent_of_roomBlock hchecked hpacked
  refine ⟨⟨packed, header, picture, ?_, hroom⟩, fun block hblock => ?_⟩
  · exact hgroups.tagged_eq hinner 'R' 'O' 'O' 'M' (by simp)
  · rw [htagged] at hblock
    obtain ⟨costume, hcostume, hcostumeBlock⟩ :=
      exists_left_of_forall₂ (mapM_eq_ok_iff.mp hcostumes) hblock
    exact costumeConsistent_of_costumeBlock (hchecked.anims costume hcostume) hcostumeBlock

/-- In every game that is loaded, compiled and packed, the blocks of all rooms and costumes agree
with their headers and with each other. -/
theorem built_games_are_consistent {format : Format} {tree : FileTree} {input : Path}
    {sources : List Source} {rooms : List RoomForge.Room} {block : Block}
    (hload : ((loadGame format input).run tree).result = .ok sources)
    (hcompile : (compileGame sources).result = .ok rooms)
    (hpack : (gameBlock rooms).result = .ok block) :
    block.inner.length = sources.length ∧ block.tagged 'L' 'F' 'L' 'F' = block.inner ∧
      ∀ file ∈ block.inner, FileConsistent file := by
  obtain ⟨hlength, hchecked⟩ := checked_of_compileGame hcompile (loadGame_ok hload)
  obtain ⟨files, hfiles, rfl⟩ := gameBlock_ok hpack
  have htags : ∀ file ∈ files, file.tag = .ofChars 'L' 'F' 'L' 'F' := by
    intro file hfile
    obtain ⟨room, -, hroom⟩ := exists_left_of_forall₂ hfiles hfile
    obtain ⟨_, _, _, _, rfl⟩ := roomFile_ok hroom
    rfl
  rw [Block.tagged, Block.inner_container]
  refine ⟨hfiles.length_eq.symm.trans hlength, ofTag_eq_self htags, fun file hfile => ?_⟩
  obtain ⟨room, hroom, hpacked⟩ := exists_left_of_forall₂ hfiles hfile
  exact fileConsistent_of_roomFile (hchecked room hroom) hpacked

/-- The directory of a room. -/
def den : Game.Place := ["den", "rooms"]

/-- The files of a game with one room, which has a mask, a color cycle, an object and a costume. -/
def denFiles : FileTree where
  files := [
    (["game.json"], "[[\"den\"]]"),
    ("room.json" :: den, "[\"wall\", [\"shade\"], [[], [[\"glow\", 1, 2, 9]]]]"),
    ("wall" :: den, "[9, 1, [], [1, 2, 3, 4, 5, 6, 7, 8, 9]]"),
    ("shade" :: den, "[9, 1, [\"101010101\"]]"),
    ("objects.json" :: "objects" :: den, "[[\"jar\"]]"),
    ("object.json" :: "jar" :: "objects" :: den, "[7]"),
    ("costumes.json" :: "costumes" :: den, "[[\"cat\"]]"),
    ("costume.json" :: "cat" :: "costumes" :: den,
      "[1, [], [\"sit\"], [[\"wait\", [0, 0]]]]"),
    ("sit" :: "cat" :: "costumes" :: den, "[1, 1, [], [5]]")].map fun (place, text) =>
      (place, Text.utf8 text)
  directories := [["rooms"], den, "objects" :: den, "jar" :: "objects" :: den, "costumes" :: den,
    "cat" :: "costumes" :: den]

theorem den_is_consistent : ∃ sources rooms block,
    ((loadGame .json ⟨""⟩).run denFiles).result = .ok sources ∧
      (compileGame sources).result = .ok rooms ∧ (gameBlock rooms).result = .ok block ∧
      block.inner.length = 1 ∧ ∀ file ∈ block.inner, FileConsistent file := by
  have hbuilt : (((loadGame .json ⟨""⟩).run denFiles).result.toOption.any fun sources =>
      sources.length == 1 && (compileGame sources).result.toOption.any fun rooms =>
        (gameBlock rooms).result.isOk) = true := by
    decide +kernel
  simp only [Option.any_eq_true, Bool.and_eq_true, beq_iff_eq, toOption_eq_some_iff] at hbuilt
  obtain ⟨sources, hload, hlength, rooms, hcompile, hok⟩ := hbuilt
  obtain ⟨block, hpack⟩ := exists_ok_of_isOk hok
  obtain ⟨hcount, -, hfiles⟩ := built_games_are_consistent hload hcompile hpack
  exact ⟨sources, rooms, block, hload, hcompile, hpack, hcount.trans hlength, hfiles⟩

end RoomForge.Resource
