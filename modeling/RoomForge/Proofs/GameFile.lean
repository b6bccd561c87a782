import RoomForge.Proofs.Records
import RoomForge.Proofs.Reports
import RoomForge.Proofs.Strips

set_option autoImplicit false

/-! # The game file determines the game

Each block of the game file is read back as the record of what it was made from (specification,
block tree of section 4.5). So all that the records of a game hold can be found in its bytes, and
games with the same bytes have the same records: `game_is_found_in_its_bytes`.

Masks have to be as large as the background of their room, since the file does not keep their size.
Loading makes sure of that (`Proofs.Loaded`), the layout itself does not.
-/

namespace RoomForge.Resource

open RoomForge.Picture RoomForge.Room RoomForge.Script

/-! ## Rows of blocks -/

section

variable {ε α β : Type} {read : Bytes → Option β}

theorem reads_of_mapM {build : α → Except ε Block} {view : α → β} {items : List α}
    {blocks : List Block} (h : items.mapM build = .ok blocks)
    (hreads : ∀ item ∈ items, ∀ block, build item = .ok block → Reads read block (view item)) :
    List.Forall₂ (Reads read) blocks (items.map view) := by
  rw [mapM_eq_ok_iff] at h
  rw [List.forall₂_map_right_iff]
  have hmem := (List.forall₂_and_left items blocks).mpr ⟨hreads, h⟩
  exact (hmem.imp fun item block hitem => hitem.1 block hitem.2).flip

theorem reads_of_map {build : α → Block} {view : α → β} (items : List α)
    (hreads : ∀ item, Reads read (build item) (view item)) :
    List.Forall₂ (Reads read) (items.map build) (items.map view) := by
  rw [List.forall₂_map_left_iff, List.forall₂_map_right_iff, List.forall₂_same]
  exact fun item _ => hreads item

theorem reads_leaf {a b c d : Char} {payload : Bytes} {value : β}
    (hwidth : (Tag.ofChars a b c d).width = .short) (h : read payload = some value) :
    Reads (readLeaf (isTag a b c d) read) (leaf a b c d payload) value :=
  Reads.leaf hwidth (by simp [isTag]) h

/-- The only block of its tag is found among others. -/
theorem Grouped.readOne_leaf {groups : List (Tag × List Block)} {pieces : List Bytes}
    (h : Grouped groups) (hpieces : Written (groups.flatMap Prod.snd) pieces) (a b c d : Char)
    {payload : Bytes} {value : β} (hwidth : (Tag.ofChars a b c d).width = .short)
    (hgroup : (.ofChars a b c d, [leaf a b c d payload]) ∈ groups)
    (hread : read payload = some value) :
    readOne (.ofChars a b c d) (readLeaf (isTag a b c d) read) pieces = some value :=
  h.readOne_eq hpieces _ hgroup (reads_leaf hwidth hread)

theorem tag_of_mapM {build : α → Except ε Block} {items : List α} {blocks : List Block} {tag : Tag}
    (h : items.mapM build = .ok blocks)
    (htag : ∀ item block, build item = .ok block → block.tag = tag) :
    ∀ block ∈ blocks, block.tag = tag := by
  intro block hblock
  obtain ⟨item, -, hitem⟩ := exists_left_of_forall₂ (mapM_eq_ok_iff.mp h) hblock
  exact htag item block hitem

/-- A tag with an index is no container's, if no container's starts like it. -/
theorem indexed_ok {a b : Char} {index : Nat} {tag : Tag}
    (hfirst : ∀ other ∈ containerTags, other.first ≠ a.toUInt8)
    (h : Tag.indexed a.toUInt8 b.toUInt8 index = .ok tag) :
    tag.width = .short ∧ isIndexed a b tag = true := by
  unfold Tag.indexed at h
  split at h
  · exact absurd h (by simp)
  · obtain rfl := Except.ok.inj h
    refine ⟨if_neg fun hmem => ?_, by simp [isIndexed]⟩
    exact hfirst _ hmem rfl

/-- Raw parts are written as they are. -/
theorem eq_of_write_raw {raws pieces : List Bytes}
    (h : List.Forall₂ (fun part piece => part.write = .ok piece) (raws.map Part.raw) pieces) :
    pieces = raws := by
  rw [List.forall₂_map_left_iff] at h
  have hsame : List.Forall₂ Eq raws pieces := by
    apply h.imp
    intro raw piece hpiece
    rw [Part.write] at hpiece
    exact Except.ok.inj hpiece
  rw [List.forall₂_eq_eq_eq] at hsame
  exact hsame.symm

end

/-! ## Pictures -/

theorem reads_mask {mask : Mask} {index : Nat} {block : Block}
    (h : maskBlock mask index = .ok block) :
    Reads (readMask mask.width mask.height) block mask := by
  simp only [maskBlock, bind_eq_ok_iff] at h
  obtain ⟨tag, htag, hblock⟩ := h
  obtain rfl := Except.ok.inj hblock
  obtain ⟨hwidth, haccepts⟩ := indexed_ok (by decide) htag
  apply Reads.of_parts hwidth haccepts
  intro pieces hpieces
  rw [eq_of_write_raw hpieces]
  exact mask.ofStrips?_toStrips

/-- Masks are as large as the background. -/
def MasksFit (room : RoomForge.Room) : Prop :=
  ∀ mask ∈ room.masks, mask.width = room.background.width ∧ mask.height = room.background.height

theorem pictureBlock_ok {room : RoomForge.Room} {block : Block}
    (h : pictureBlock room = .ok block) :
    ∃ masks, (room.masks.zipIdx.mapM fun (mask, index) => maskBlock mask index) = .ok masks ∧
      block = .container (.ofChars 'R' 'M' 'I' 'M')
        (leaf 'I' 'M' '0' '0' room.background.pixels :: masks) := by
  simp only [pictureBlock, bind_eq_ok_iff] at h
  obtain ⟨masks, hmasks, hblock⟩ := h
  exact ⟨masks, hmasks, (Except.ok.inj hblock).symm⟩

theorem reads_picture {room : RoomForge.Room} {block : Block} (hmasks : MasksFit room)
    (h : pictureBlock room = .ok block) :
    Reads (readPicture room.background.width room.background.height) block
      (.of room.background, room.masks) := by
  obtain ⟨masks, hblocks, rfl⟩ := pictureBlock_ok h
  have hreads : List.Forall₂ (Reads (readMask room.background.width room.background.height)) masks
      (room.masks.zipIdx.map Prod.fst) := by
    apply reads_of_mapM hblocks
    intro numbered hnumbered inner hinner
    obtain ⟨hwidth, hheight⟩ := hmasks numbered.1 (List.fst_mem_of_mem_zipIdx hnumbered)
    rw [← hwidth, ← hheight]
    exact reads_mask hinner
  rw [List.zipIdx_map_fst] at hreads
  apply Reads.of_blocks (by rfl) (by simp [isTag, Block.container]) _ rfl
  intro pieces hpieces
  cases hpieces with
  | @cons _ first _ rest hfirst hrest =>
    have hpicture : picture? room.background.width room.background.height room.background.pixels =
        some (.of room.background) := by
      simp [picture?, room.background.sized, PictureRecord.of]
    have hbackground := reads_leaf (a := 'I') (b := 'M') (c := '0') (d := '0') (by decide) hpicture
    dsimp only
    rw [hbackground first hfirst, Written.mapM_eq hrest hreads]
    rfl

/-! ## Objects -/

/-- The header of an object's images. -/
def ImagesHeader.of (object : Object) : ImagesHeader where
  id := object.id
  x := object.x
  y := object.y
  width := (ObjectRecord.of object).width
  height := (ObjectRecord.of object).height
  base := (ObjectRecord.of object).base
  count := UInt8.ofNat object.images.length

/-- An object apart from its images. -/
def ObjectCode.of (object : Object) : ObjectCode :=
  ⟨object.id, (ObjectRecord.of object).verb, object.name⟩

theorem joinObject_of (object : Object) :
    joinObject (.of object, object.images.map (·.pixels)) (.of object) =
      some (.of object) := by
  simp [joinObject, ImagesHeader.of, ObjectCode.of, ObjectRecord.of]

theorem objectImageBlock_ok {object : Object} {block : Block}
    (h : objectImageBlock object = .ok block) :
    object.images.length < 256 ∧ ∃ header images,
      readImagesHeader.Takes header (.of object) ∧
      (object.images.zipIdx.mapM fun (image, index) => do
        let tag ← Tag.indexed 'I'.toUInt8 'M'.toUInt8 (index + 1)
        return Block.leaf tag image.pixels) = .ok images ∧
      block = .container (.ofChars 'O' 'B' 'I' 'M') (leaf 'I' 'M' 'H' 'D' header :: images) := by
  simp only [objectImageBlock, bind_eq_ok_iff, countByte_eq_ok_iff] at h
  obtain ⟨count, ⟨hcount, rfl⟩, images, himages, hblock⟩ := h
  refine ⟨hcount, _, images, ?_, himages, (Except.ok.inj hblock).symm⟩
  intro rest
  unfold ImagesHeader.of ObjectRecord.of
  cases object.images <;> simp [readImagesHeader]

theorem reads_objectImages {object : Object} {block : Block}
    (h : objectImageBlock object = .ok block) :
    Reads readObjectImages block (.of object, object.images.map (·.pixels)) := by
  obtain ⟨hcount, header, images, hheader, himages, rfl⟩ := objectImageBlock_ok h
  have hreads : List.Forall₂ (Reads (readLeaf (isIndexed 'I' 'M') some)) images
      (object.images.zipIdx.map fun numbered => numbered.1.pixels) := by
    apply reads_of_mapM himages
    intro numbered _ inner hinner
    obtain ⟨tag, htag, hleaf⟩ := bind_eq_ok_iff.mp hinner
    obtain rfl := Except.ok.inj hleaf
    obtain ⟨hwidth, haccepts⟩ := indexed_ok (by decide) htag
    exact Reads.leaf hwidth haccepts rfl
  have hpixels : (object.images.zipIdx.map fun numbered => numbered.1.pixels) =
      object.images.map (·.pixels) := by
    conv_rhs => rw [← List.zipIdx_map_fst 0 object.images, List.map_map]
    rfl
  rw [hpixels] at hreads
  apply Reads.of_blocks (by rfl) (by simp [isTag, Block.container]) _ rfl
  intro pieces hpieces
  cases hpieces with
  | @cons _ first _ rest hfirst hrest =>
    have hread := reads_leaf (a := 'I') (b := 'M') (c := 'H') (d := 'D') (by decide)
      hheader.whole_eq
    have hsize : (ImagesHeader.of object).count.toNat = (object.images.map (·.pixels)).length := by
      rw [List.length_map]
      exact UInt8.toNat_ofNat_of_lt' hcount
    dsimp only
    rw [hread first hfirst, Written.mapM_eq hrest hreads]
    exact if_pos hsize

/-- The blocks of an object's code, by their tags. -/
def objectCodeGroups (object : Object) : List (Tag × List Block) := [
  (.ofChars 'C' 'D' 'H' 'D', [leaf 'C' 'D' 'H' 'D' (Bytes.word object.id)]),
  (.ofChars 'V' 'E' 'R' 'B', [leaf 'V' 'E' 'R' 'B' ((object.verb.map codeOf).getD [])]),
  (.ofChars 'O' 'B' 'N' 'A', [leaf 'O' 'B' 'N' 'A' (Text.utf8 object.name ++ [0])])]

theorem objectCodeBlock_parts (object : Object) : (objectCodeBlock object).parts =
    ((objectCodeGroups object).flatMap Prod.snd).map Block.toPart := rfl

theorem grouped_objectCode (object : Object) : Grouped (objectCodeGroups object) :=
  ⟨by simp [objectCodeGroups, leaf, Block.leaf], by simp only [objectCodeGroups, List.map]; decide⟩

theorem reads_objectCode (object : Object) :
    Reads readObjectCode (objectCodeBlock object) (.of object) := by
  have hverb : ((object.verb.map codeOf).getD []) = (ObjectCode.of object).verb := by
    unfold ObjectCode.of ObjectRecord.of
    cases object.verb <;> rfl
  have hgroups := grouped_objectCode object
  apply Reads.of_blocks (by rfl) (by simp [isTag, objectCodeBlock]) _ (objectCodeBlock_parts object)
  intro pieces hpieces
  have hid := hgroups.readOne_leaf hpieces 'C' 'D' 'H' 'D' (by decide)
    (by simp [objectCodeGroups]) (Bytes.readWord_takes object.id).whole_eq
  have hcode := hgroups.readOne_leaf hpieces 'V' 'E' 'R' 'B' (by decide)
    (by simp [objectCodeGroups]) (congrArg some hverb)
  have hname := hgroups.readOne_leaf hpieces 'O' 'B' 'N' 'A' (by decide)
    (by simp [objectCodeGroups]) (readName_eq object.name)
  rw [hid, hcode, hname]
  rfl

/-! ## Costumes -/

theorem animBlock_ok {anim : Anim} {block : Block} (h : animBlock anim = .ok block) :
    block.tag = .ofChars 'A' 'N' 'I' 'M' ∧
      Reads (readLeaf (isTag 'A' 'N' 'I' 'M') readAnim) block (.of anim) := by
  simp only [animBlock, bind_eq_ok_iff] at h
  obtain ⟨count, hcount, hblock⟩ := h
  obtain rfl := Except.ok.inj hblock
  exact ⟨rfl, reads_leaf (by decide) (readAnim_eq hcount)⟩

theorem reads_frame (frame : Image) :
    Reads (readLeaf (isTag 'F' 'R' 'A' 'M') readFrame) (frameBlock frame) (.of frame) :=
  reads_leaf (by decide) (readFrame_eq frame)

/-- The header of a costume. -/
def CostumeHeader.of (costume : Costume) : CostumeHeader where
  id := costume.id
  base := costume.base
  anims := UInt8.ofNat costume.anims.length
  frames := UInt8.ofNat costume.frames.length

/-- The blocks of a costume, by their tags. -/
def costumeGroups (costume : Costume) (anims : List Block) : List (Tag × List Block) := [
  (.ofChars 'C' 'H' 'D' 'R', [leaf 'C' 'H' 'D' 'R'
    (Bytes.word costume.id ++ Bytes.word costume.base ++ [UInt8.ofNat costume.anims.length] ++
      [UInt8.ofNat costume.frames.length])]),
  (.ofChars 'A' 'N' 'I' 'M', anims),
  (.ofChars 'F' 'R' 'A' 'M', costume.frames.map frameBlock)]

theorem grouped_costume {costume : Costume} {anims : List Block}
    (h : costume.anims.mapM animBlock = .ok anims) : Grouped (costumeGroups costume anims) := by
  have hanims : ∀ block ∈ anims, block.tag = .ofChars 'A' 'N' 'I' 'M' :=
    tag_of_mapM h fun _ _ hanim => (animBlock_ok hanim).1
  constructor
  · simp only [costumeGroups, List.forall_mem_cons, List.forall_mem_map, List.not_mem_nil,
      false_implies, implies_true, and_true]
    exact ⟨rfl, hanims, fun _ _ => rfl⟩
  · simp only [costumeGroups, List.map]
    decide

theorem costumeBlock_ok {costume : Costume} {block : Block} (h : costumeBlock costume = .ok block) :
    costume.anims.length < 256 ∧ costume.frames.length < 256 ∧
      ∃ anims, costume.anims.mapM animBlock = .ok anims ∧
        block = .container (.ofChars 'C' 'O' 'S' 'T')
          ((costumeGroups costume anims).flatMap Prod.snd) := by
  simp only [costumeBlock, bind_eq_ok_iff, countByte_eq_ok_iff] at h
  obtain ⟨_, ⟨hanims, rfl⟩, _, ⟨hframes, rfl⟩, anims, hblocks, hblock⟩ := h
  refine ⟨hanims, hframes, anims, hblocks, ?_⟩
  obtain rfl := Except.ok.inj hblock
  simp [costumeGroups]

theorem reads_costume {costume : Costume} {block : Block} (h : costumeBlock costume = .ok block) :
    Reads readCostume block (.of costume) := by
  obtain ⟨hanims, hframes, anims, hblocks, rfl⟩ := costumeBlock_ok h
  have hgroups := grouped_costume hblocks
  apply Reads.of_blocks (by rfl) (by simp [isTag, Block.container]) _ rfl
  intro pieces hpieces
  have hheader := hgroups.readOne_leaf hpieces 'C' 'H' 'D' 'R' (by decide)
    (by simp [costumeGroups, CostumeHeader.of]) (readCostumeHeader_takes (.of costume)).whole_eq
  have hanimReads := hgroups.readAll_eq hpieces (.ofChars 'A' 'N' 'I' 'M')
    (by simp [costumeGroups])
    (reads_of_mapM hblocks fun anim _ inner hinner => (animBlock_ok hinner).2)
  have hframeReads := hgroups.readAll_eq hpieces (.ofChars 'F' 'R' 'A' 'M')
    (by simp [costumeGroups]) (reads_of_map costume.frames reads_frame)
  rw [hheader, hanimReads, hframeReads]
  refine if_pos ⟨?_, ?_⟩
  · rw [List.length_map]
    exact UInt8.toNat_ofNat_of_lt' hanims
  · rw [List.length_map]
    exact UInt8.toNat_ofNat_of_lt' hframes

theorem tag_of_costumeBlock {costume : Costume} {block : Block}
    (h : costumeBlock costume = .ok block) : block.tag = .ofChars 'C' 'O' 'S' 'T' := by
  obtain ⟨_, _, _, _, rfl⟩ := costumeBlock_ok h
  rfl

/-! ## Rooms -/

/-- The header of a room. -/
def RoomHeader.of (room : RoomForge.Room) : RoomHeader where
  width := room.background.width
  height := room.background.height
  objects := UInt16.ofNat room.objects.length
  id := room.id
  masks := UInt8.ofNat room.masks.length

theorem headerBlock_ok {room : RoomForge.Room} {block : Block} (h : headerBlock room = .ok block) :
    room.objects.length < 65536 ∧ room.masks.length < 256 ∧
      ∃ header, readRoomHeader.Takes header (.of room) ∧ block = leaf 'R' 'M' 'H' 'D' header := by
  simp only [headerBlock, bind_eq_ok_iff, countByte_eq_ok_iff, countWord_eq_ok_iff] at h
  obtain ⟨_, ⟨hobjects, rfl⟩, _, ⟨hmasks, rfl⟩, hblock⟩ := h
  exact ⟨hobjects, hmasks, _, readRoomHeader_takes (.of room), (Except.ok.inj hblock).symm⟩

theorem reads_cycles (palette : Palette) :
    Reads (readLeaf (isTag 'C' 'Y' 'C' 'L') (Bytes.readMany readCycle)) (cyclesBlock palette)
      (palette.cycles.map CycleRecord.of) := by
  apply reads_leaf (by decide)
  apply Bytes.readMany_flatMap_map
  · exact fun cycle _ => readCycle_takes cycle
  · simp

theorem reads_colors (palette : Palette) :
    Reads (readLeaf (isTag 'C' 'L' 'U' 'T') (Bytes.readMany readColor)) (paletteBlock palette)
      (palette.colors.take 256) := by
  apply reads_leaf (by decide)
  apply Bytes.readMany_flatMap
  · exact fun color _ => readColor_takes color
  · simp [Color.bytes]

theorem reads_boxes (boxes : List WalkBox) :
    Reads (readLeaf (isTag 'B' 'O' 'X' 'D') (Bytes.readMany readBox)) (boxesBlock boxes)
      (boxes.map BoxRecord.of) := by
  apply reads_leaf (by decide)
  apply Bytes.readMany_flatMap_map
  · exact fun box _ => readBox_takes box
  · simp [boxBytes]

/-- The block of a function by its record. -/
def ScriptRecord.block (script : ScriptRecord) : Block :=
  leaf 'L' 'S' 'C' 'R' (Bytes.word script.number ++ script.code)

/-- The blocks of functions are those of their records. -/
theorem filterMap_scriptBlock? (routines : List Routine) :
    routines.filterMap scriptBlock? =
      ((routines.filter fun routine => !routine.isInlined).filterMap ScriptRecord.of?).map
        ScriptRecord.block := by
  rw [List.map_filterMap, List.filterMap_filter]
  apply List.filterMap_congr
  intro routine _
  unfold scriptBlock? ScriptRecord.of?
  cases routine.isInlined with
  | true => rfl
  | false => cases routine.number <;> rfl

theorem reads_script (script : ScriptRecord) :
    Reads (readLeaf (isTag 'L' 'S' 'C' 'R') readScript) script.block script :=
  reads_leaf (by decide) (readScript_eq script.number script.code)

theorem reads_scripts (routines : List Routine) :
    List.Forall₂ (Reads (readLeaf (isTag 'L' 'S' 'C' 'R') readScript))
      (routines.filterMap scriptBlock?)
      ((routines.filter fun routine => !routine.isInlined).filterMap ScriptRecord.of?) := by
  rw [filterMap_scriptBlock?, List.forall₂_map_left_iff, List.forall₂_same]
  exact fun script _ => reads_script script

/-- The blocks of a room, by their tags. -/
def roomGroups (room : RoomForge.Room) (header picture : Block) (images : List Block) :
    List (Tag × List Block) := [
  (.ofChars 'R' 'M' 'H' 'D', [header]),
  (.ofChars 'C' 'Y' 'C' 'L', [cyclesBlock room.palette]),
  (.ofChars 'C' 'L' 'U' 'T', [paletteBlock room.palette]),
  (.ofChars 'R' 'M' 'I' 'M', [picture]),
  (.ofChars 'O' 'B' 'I' 'M', images),
  (.ofChars 'O' 'B' 'C' 'D', room.objects.map objectCodeBlock),
  (.ofChars 'E' 'X' 'C' 'D', [leaf 'E' 'X' 'C' 'D' (codeOf room.exit)]),
  (.ofChars 'E' 'N' 'C' 'D', [leaf 'E' 'N' 'C' 'D' (codeOf room.entry)]),
  (.ofChars 'L' 'S' 'C' 'R', room.routines.filterMap scriptBlock?),
  (.ofChars 'B' 'O' 'X' 'D', [boxesBlock room.boxes])]

theorem grouped_room {room : RoomForge.Room} {header picture : Block} {images : List Block}
    (hheader : headerBlock room = .ok header) (hpicture : pictureBlock room = .ok picture)
    (himages : room.objects.mapM objectImageBlock = .ok images) :
    Grouped (roomGroups room header picture images) := by
  have hheaderTag : header.tag = .ofChars 'R' 'M' 'H' 'D' := by
    obtain ⟨_, _, _, _, rfl⟩ := headerBlock_ok hheader
    rfl
  have hpictureTag : picture.tag = .ofChars 'R' 'M' 'I' 'M' := by
    obtain ⟨_, _, rfl⟩ := pictureBlock_ok hpicture
    rfl
  have himageTags : ∀ block ∈ images, block.tag = .ofChars 'O' 'B' 'I' 'M' := by
    apply tag_of_mapM himages
    intro object block hobject
    obtain ⟨_, _, _, _, _, rfl⟩ := objectImageBlock_ok hobject
    rfl
  have hcodeTags : ∀ block ∈ room.objects.map objectCodeBlock,
      block.tag = .ofChars 'O' 'B' 'C' 'D' := by
    intro block hblock
    obtain ⟨object, -, rfl⟩ := List.mem_map.mp hblock
    rfl
  have hscriptTags : ∀ block ∈ room.routines.filterMap scriptBlock?,
      block.tag = .ofChars 'L' 'S' 'C' 'R' := by
    intro block hblock
    rw [filterMap_scriptBlock?] at hblock
    obtain ⟨script, -, rfl⟩ := List.mem_map.mp hblock
    rfl
  constructor
  · simp only [roomGroups, List.forall_mem_cons, List.not_mem_nil, false_implies, implies_true,
      and_true]
    exact ⟨hheaderTag, rfl, rfl, hpictureTag, himageTags, hcodeTags, rfl, rfl, hscriptTags, rfl⟩
  · simp only [roomGroups, List.map]
    decide

theorem roomBlock_ok {room : RoomForge.Room} {block : Block}
    (h : (roomBlock room).result = .ok block) :
    ∃ header picture images, headerBlock room = .ok header ∧ pictureBlock room = .ok picture ∧
      room.objects.mapM objectImageBlock = .ok images ∧
      block = .container (.ofChars 'R' 'O' 'O' 'M')
        ((roomGroups room header picture images).flatMap Prod.snd) := by
  simp only [roomBlock, roomParts, Report.result_bind, Report.result_say, Report.result_ofExcept,
    ok_bind, bind_eq_ok_iff] at h
  obtain ⟨parts, ⟨header, hheader, picture, hpicture, images, himages, hparts⟩, hblock⟩ := h
  refine ⟨header, picture, images, hheader, hpicture, himages, ?_⟩
  obtain rfl := Except.ok.inj hparts
  obtain rfl := Except.ok.inj hblock
  simp [roomGroups]

/-- The two halves of objects are put together again. -/
theorem mapM_joinObject (objects : List Object) :
    (((objects.map fun object => (ImagesHeader.of object, object.images.map (·.pixels))).zip
      (objects.map ObjectCode.of)).mapM fun (images, code) => joinObject images code) =
      some (objects.map ObjectRecord.of) := by
  rw [List.zip_map', mapM_eq_some_iff, List.forall₂_map_left_iff, List.forall₂_map_right_iff,
    List.forall₂_same]
  exact fun object _ => joinObject_of object

theorem reads_room {room : RoomForge.Room} {block : Block} (hmasks : MasksFit room)
    (h : (roomBlock room).result = .ok block) :
    Reads (readRoom (room.costumes.map CostumeRecord.of)) block (.of room) := by
  obtain ⟨header, picture, images, hheader, hpicture, himages, rfl⟩ := roomBlock_ok h
  have hgroups := grouped_room hheader hpicture himages
  obtain ⟨hobjectCount, hmaskCount, payload, hpayload, rfl⟩ := headerBlock_ok hheader
  apply Reads.of_blocks (by rfl) (by simp [isTag, Block.container]) _ rfl
  intro pieces hpieces
  have hheaderRead := hgroups.readOne_leaf hpieces 'R' 'M' 'H' 'D' (by decide)
    (by simp [roomGroups]) hpayload.whole_eq
  have hcycles := hgroups.readOne_eq hpieces (.ofChars 'C' 'Y' 'C' 'L') (by simp [roomGroups])
    (reads_cycles room.palette)
  have hcolors := hgroups.readOne_eq hpieces (.ofChars 'C' 'L' 'U' 'T') (by simp [roomGroups])
    (reads_colors room.palette)
  have hpictureRead := hgroups.readOne_eq hpieces (.ofChars 'R' 'M' 'I' 'M')
    (by simp [roomGroups]) (reads_picture hmasks hpicture)
  have himageReads := hgroups.readAll_eq hpieces (.ofChars 'O' 'B' 'I' 'M')
    (by simp [roomGroups])
    (reads_of_mapM himages fun object _ inner hinner => reads_objectImages hinner)
  have hcodes := hgroups.readAll_eq hpieces (.ofChars 'O' 'B' 'C' 'D') (by simp [roomGroups])
    (reads_of_map room.objects reads_objectCode)
  have hexit := hgroups.readOne_leaf hpieces 'E' 'X' 'C' 'D' (by decide) (by simp [roomGroups])
    (Eq.refl (some (codeOf room.exit)))
  have hentry := hgroups.readOne_leaf hpieces 'E' 'N' 'C' 'D' (by decide) (by simp [roomGroups])
    (Eq.refl (some (codeOf room.entry)))
  have hscripts := hgroups.readAll_eq hpieces (.ofChars 'L' 'S' 'C' 'R') (by simp [roomGroups])
    (reads_scripts room.routines)
  have hboxes := hgroups.readOne_eq hpieces (.ofChars 'B' 'O' 'X' 'D') (by simp [roomGroups])
    (reads_boxes room.boxes)
  simp only [hheaderRead, hcycles, hcolors, hpictureRead, himageReads, hcodes, hexit, hentry,
    hscripts, hboxes, RoomHeader.of, Option.bind_eq_bind, Option.bind_some, mapM_joinObject]
  rw [if_pos]
  · rfl
  · rw [List.length_map, List.length_map]
    exact ⟨UInt8.toNat_ofNat_of_lt' hmaskCount, UInt16.toNat_ofNat_of_lt' hobjectCount, rfl⟩

/-! ## The game -/

theorem roomFile_ok {room : RoomForge.Room} {block : Block}
    (h : (roomFile room).result = .ok block) :
    ∃ inner costumes, (roomBlock room).result = .ok inner ∧
      room.costumes.mapM costumeBlock = .ok costumes ∧
      block = .container (.ofChars 'L' 'F' 'L' 'F') (inner :: costumes) := by
  simp only [roomFile, Report.result_bind, Report.result_ofExcept, bind_eq_ok_iff] at h
  obtain ⟨inner, hinner, costumes, hcostumes, hblock⟩ := h
  exact ⟨inner, costumes, hinner, hcostumes, (Except.ok.inj hblock).symm⟩

theorem grouped_roomFile {room : RoomForge.Room} {inner : Block} {costumes : List Block}
    (hinner : (roomBlock room).result = .ok inner)
    (hcostumes : room.costumes.mapM costumeBlock = .ok costumes) :
    Grouped [(.ofChars 'R' 'O' 'O' 'M', [inner]), (.ofChars 'C' 'O' 'S' 'T', costumes)] := by
  constructor
  · simp only [List.forall_mem_cons, List.not_mem_nil, false_implies, implies_true, and_true]
    constructor
    · obtain ⟨_, _, _, _, _, _, rfl⟩ := roomBlock_ok hinner
      rfl
    · exact tag_of_mapM hcostumes fun _ _ => tag_of_costumeBlock
  · simp only [List.map]
    decide

theorem reads_roomFile {room : RoomForge.Room} {block : Block} (hmasks : MasksFit room)
    (h : (roomFile room).result = .ok block) : Reads readRoomFile block (.of room) := by
  obtain ⟨inner, costumes, hinner, hcostumes, rfl⟩ := roomFile_ok h
  have hgroups := grouped_roomFile hinner hcostumes
  apply Reads.of_blocks (by rfl) (by simp [isTag, Block.container]) _ rfl
  intro pieces hpieces
  have hcostumeReads := hgroups.readAll_eq (by simpa using hpieces) (.ofChars 'C' 'O' 'S' 'T')
    (by simp) (reads_of_mapM hcostumes fun costume _ block hblock => reads_costume hblock)
  have hroom := hgroups.readOne_eq (by simpa using hpieces) (.ofChars 'R' 'O' 'O' 'M') (by simp)
    (reads_room hmasks hinner)
  rw [hcostumeReads]
  exact hroom

theorem gameBlock_ok {rooms : List RoomForge.Room} {block : Block}
    (h : (gameBlock rooms).result = .ok block) :
    ∃ files, List.Forall₂ (fun room file => (roomFile room).result = .ok file) rooms files ∧
      block = .container (.ofChars 'L' 'E' 'C' 'F') files := by
  simp only [gameBlock, Report.result_bind, bind_eq_ok_iff, Report.result_each_eq_ok_iff] at h
  obtain ⟨files, hfiles, hblock⟩ := h
  refine ⟨files, hfiles.imp ?_, (Except.ok.inj hblock).symm⟩
  intro room file hfile
  simpa only [Report.doing, Report.result_mapError, mapError_eq_ok_iff] using hfile

theorem reads_game {rooms : List RoomForge.Room} {block : Block}
    (hmasks : ∀ room ∈ rooms, MasksFit room) (h : (gameBlock rooms).result = .ok block) :
    Reads readGame block (rooms.map RoomRecord.of) := by
  obtain ⟨files, hfiles, rfl⟩ := gameBlock_ok h
  apply Reads.of_blocks (by rfl) (by simp [isTag, Block.container]) _ rfl
  intro pieces hpieces
  apply hpieces.mapM_eq
  rw [List.forall₂_map_right_iff]
  have hfits := (List.forall₂_and_left rooms files).mpr ⟨hmasks, hfiles⟩
  exact (hfits.imp fun room file hroom => reads_roomFile hroom.1 hroom.2).flip

/-! ## Counts -/

/-- How much there is of what fits the fields that count it. -/
structure CountsFit (room : RoomForge.Room) : Prop where
  objects : room.objects.length < 65536
  masks : room.masks.length < 256
  images : ∀ object ∈ room.objects, object.images.length < 256
  anims : ∀ costume ∈ room.costumes, costume.anims.length < 256
  frames : ∀ costume ∈ room.costumes, costume.frames.length < 256
  steps : ∀ costume ∈ room.costumes, ∀ anim ∈ costume.anims, anim.frames.length < 256

theorem countsFit_of_roomFile {room : RoomForge.Room} {block : Block}
    (h : (roomFile room).result = .ok block) : CountsFit room := by
  obtain ⟨inner, costumes, hinner, hcostumes, -⟩ := roomFile_ok h
  obtain ⟨header, _, images, hheader, _, himages, -⟩ := roomBlock_ok hinner
  obtain ⟨hobjects, hmasks, -⟩ := headerBlock_ok hheader
  have hcostume : ∀ costume ∈ room.costumes, ∃ block, costumeBlock costume = .ok block :=
    fun costume => exists_ok_of_mapM hcostumes
  refine ⟨hobjects, hmasks, ?_, ?_, ?_, ?_⟩
  · intro object hobject
    obtain ⟨block, hblock⟩ := exists_ok_of_mapM himages hobject
    exact (objectImageBlock_ok hblock).1
  · intro costume hmem
    obtain ⟨block, hblock⟩ := hcostume costume hmem
    exact (costumeBlock_ok hblock).1
  · intro costume hmem
    obtain ⟨block, hblock⟩ := hcostume costume hmem
    exact (costumeBlock_ok hblock).2.1
  · intro costume hmem anim hanim
    obtain ⟨block, hblock⟩ := hcostume costume hmem
    obtain ⟨_, _, anims, hanims, -⟩ := costumeBlock_ok hblock
    obtain ⟨inner, hinner⟩ := exists_ok_of_mapM hanims hanim
    simp only [animBlock, bind_eq_ok_iff, countByte_eq_ok_iff] at hinner
    obtain ⟨_, ⟨hlt, _⟩, _⟩ := hinner
    exact hlt

/-- All that the records of a game hold is found in the bytes of its file, which therefore no game
with other records has. No count is cut to fit its field. The reader also checks that the pixels of
a picture fill its size. The writer does not: an `Image` carries the proof that they do, so there
is no game whose file fails this check. -/
theorem game_is_found_in_its_bytes {rooms : List RoomForge.Room} {block : Block} {bytes : Bytes}
    (hmasks : ∀ room ∈ rooms, MasksFit room) (hblock : (gameBlock rooms).result = .ok block)
    (hbytes : block.toBytes = .ok bytes) :
    readGame bytes = some (rooms.map RoomRecord.of) ∧ (∀ room ∈ rooms, CountsFit room) ∧
      ∀ others otherBlock, (∀ room ∈ others, MasksFit room) →
        (gameBlock others).result = .ok otherBlock → otherBlock.toBytes = .ok bytes →
        others.map RoomRecord.of = rooms.map RoomRecord.of := by
  rw [Block.toBytes_eq_write] at hbytes
  have hread := reads_game hmasks hblock bytes hbytes
  refine ⟨hread, ?_, ?_⟩
  · intro room hroom
    obtain ⟨files, hfiles, -⟩ := gameBlock_ok hblock
    obtain ⟨file, -, hfile⟩ := exists_left_of_forall₂ hfiles.flip hroom
    exact countsFit_of_roomFile hfile
  · intro others otherBlock hotherMasks hother hsame
    rw [Block.toBytes_eq_write] at hsame
    have hotherRead := reads_game hotherMasks hother bytes hsame
    exact Option.some.inj (hotherRead.symm.trans hread)

/-- A room with a mask of two strips, an object with an image and a verb, one without either, and a
costume. -/
def attic : RoomForge.Room where
  id := 3
  name := "attic"
  background := { width := 9, height := 1, pixels := [1, 2, 3, 4, 5, 6, 7, 8, 9], sized := rfl }
  masks := [{ width := 9, height := 1, sized := rfl,
              bits := #[true, false, false, true, false, false, false, true, true] }]
  palette := { colors := [⟨255, 0, 7⟩], cycles := [⟨1, "glow", 2, 3, 500⟩] }
  objects := [
    { id := 258, name := "lamp", x := -1, y := 300,
      verb := some { Routine.stub "lamp_verb" with code := some [64] },
      images := [{ width := 2, height := 1, pixels := [7, 8], base := 1, sized := rfl }] },
    { id := 2, name := "", x := 0, y := 0 }]
  boxes := [⟨1, "floor", ⟨0, 0⟩, ⟨8, 0⟩, ⟨8, -5⟩, ⟨0, 9⟩, 1, 255⟩]
  costumes := [{ id := 4, name := "cat", anims := [⟨1, "walk", [0, 0]⟩],
                 frames := [{ width := 1, height := 1, pixels := [9], sized := rfl }] }]
  constants := []
  entry := { Routine.stub "entry" with code := some [48, 200, 0, 64] }
  exit := Routine.stub "exit"
  routines := [{ Routine.stub "wave" with number := some 200, code := some [64] }]
  warnings := []

theorem attic_is_found_in_its_bytes :
    ∃ block bytes, (gameBlock [attic]).result = .ok block ∧ block.toBytes = .ok bytes ∧
      readGame bytes = some [RoomRecord.of attic] := by
  have hwritten : ((gameBlock [attic]).result.toOption.any fun block =>
      block.toBytes.isOk) = true := by decide +kernel
  simp only [Option.any_eq_true, toOption_eq_some_iff] at hwritten
  obtain ⟨block, hblock, hok⟩ := hwritten
  obtain ⟨bytes, hbytes⟩ := exists_ok_of_isOk hok
  have hmasks : ∀ room ∈ [attic], MasksFit room := by
    simp [MasksFit, attic]
  exact ⟨block, bytes, hblock, hbytes, (game_is_found_in_its_bytes hmasks hblock hbytes).1⟩

end RoomForge.Resource
