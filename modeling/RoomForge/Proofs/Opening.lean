import RoomForge.Proofs.BlockFormat

set_option autoImplicit false

/-! # Opening blocks

Reading blocks off bytes alone (specification, section 4.5). Besides the bytes a reader has to know
only which tags have wide table entries: the table ends where the first part starts, and so the
number of parts is known. Parts of different kinds are told apart by their tags. `openBlock` is the
reader; `Grouped.readAll_eq` and `Grouped.readOne_eq` find the parts of one tag again.
-/

namespace RoomForge.Resource

/-- The tags of blocks with wide table entries. -/
def containerTags : List Tag :=
  [.ofChars 'L' 'E' 'C' 'F', .ofChars 'L' 'F' 'L' 'F', .ofChars 'R' 'O' 'O' 'M',
    .ofChars 'R' 'M' 'I' 'M', .ofChars 'O' 'B' 'I' 'M', .ofChars 'C' 'O' 'S' 'T']

/-- The width of the table entries of a block, by its tag. -/
def Tag.width (tag : Tag) : OffsetWidth :=
  if tag ∈ containerTags then .long else .short

/-- The tag in front of bytes. -/
def tagOf? : Bytes → Option Tag
  | a :: b :: c :: d :: _ => some ⟨a, b, c, d⟩
  | _ => none

/-- The number of parts of a block: its table ends where the first part starts. -/
def partCount (width : OffsetWidth) (bytes : Bytes) : Nat :=
  if bytes.length ≤ 8 then 0 else (tableEntry width bytes 0 - 8) / width.bytes

/-- Takes a block apart: its tag and the bytes of its parts. The bytes have to be as many as the
block's size says. -/
def openBlock (bytes : Bytes) : Option (Tag × List Bytes) := do
  let tag ← tagOf? bytes
  if Bytes.ofBig (bytes.slice 4 8) ≠ bytes.length then none
  else
    let count := partCount tag.width bytes
    return (tag, (List.range count).map fun index =>
      bytes.slice (tableEntry tag.width bytes index) (tableEnd tag.width count bytes index))

/-! ## One block -/

section

variable {block : Block} {bytes : Bytes}

theorem tagOf?_of_write (h : block.toPart.write = .ok bytes) : tagOf? bytes = some block.tag := by
  obtain ⟨_, pieces, _, rfl⟩ := Block.write_eq_ok_iff.mp h
  rfl

theorem partCount_of_write (h : block.toPart.write = .ok bytes) :
    partCount block.width bytes = block.parts.length := by
  have hdescribed := Block.describedBy_of_write h
  have hsize := block.size_eq
  have hwidth : 0 < block.width.bytes := by
    cases block.width <;> decide
  unfold partCount
  rw [hdescribed.length]
  by_cases hparts : block.parts.length = 0
  · have hempty : block.size = 8 := by
      rw [hsize, List.eq_nil_of_length_eq_zero hparts]
      rfl
    rw [if_pos (by omega), hparts]
  · have htable : 0 < block.width.bytes * block.parts.length :=
      Nat.mul_pos hwidth (Nat.pos_of_ne_zero hparts)
    rw [if_neg (by omega), hdescribed.entries 0 (Nat.pos_of_ne_zero hparts), Block.start]
    simp [Nat.mul_div_cancel_left _ hwidth]

/-- The table finds all parts, in order. -/
theorem map_partBytes_eq {pieces : List Bytes} (hfits : block.Fits)
    (hpieces : List.Forall₂ (fun part piece => part.write = .ok piece) block.parts pieces) :
    (List.range block.parts.length).map (partBytes block (block.header ++ pieces.flatten)) =
      pieces := by
  apply List.ext_getElem
  · rw [List.length_map, List.length_range, hpieces.length_eq]
  · intro index hindex hbound
    rw [List.length_map, List.length_range] at hindex
    have hpiece : block.parts[index].write = .ok pieces[index] := hpieces.get hindex hbound
    have hfound := partBytes_eq hfits hpieces (List.getElem?_eq_getElem hindex)
    rw [List.getElem_map, List.getElem_range]
    exact Except.ok.inj (hfound.symm.trans hpiece)

/-- A block that was written is taken apart into its parts. -/
theorem openBlock_of_write (hwidth : block.tag.width = block.width)
    (h : block.toPart.write = .ok bytes) :
    ∃ pieces, List.Forall₂ (fun part piece => part.write = .ok piece) block.parts pieces ∧
      openBlock bytes = some (block.tag, pieces) := by
  have hdescribed := Block.describedBy_of_write h
  have hcount := partCount_of_write h
  have htag := tagOf?_of_write h
  obtain ⟨hfits, pieces, hpieces, rfl⟩ := Block.write_eq_ok_iff.mp h
  refine ⟨pieces, hpieces, ?_⟩
  unfold openBlock
  rw [htag]
  show (if _ then none else some (block.tag, _)) = _
  rw [if_neg (by rw [hdescribed.size, hdescribed.length, not_not]), hwidth, hcount]
  exact congrArg (fun pieces => some (block.tag, pieces)) (map_partBytes_eq hfits hpieces)

end

/-! ## Readers of blocks -/

section

variable {α : Type}

/-- A reader finds `value` in the bytes of a block, once it is written. -/
def Reads (read : Bytes → Option α) (block : Block) (value : α) : Prop :=
  ∀ bytes, block.toPart.write = .ok bytes → read bytes = some value

/-- Reads the parts of a block whose tag is accepted. -/
def readBlock (accepts : Tag → Bool) (read : List Bytes → Option α) (bytes : Bytes) : Option α :=
  match openBlock bytes with
  | none => none
  | some (tag, pieces) => if accepts tag then read pieces else none

/-- Reads the payload of a block that has one. -/
def readLeaf (accepts : Tag → Bool) (read : Bytes → Option α) : Bytes → Option α :=
  readBlock accepts fun
    | [payload] => read payload
    | _ => none

theorem Reads.of_parts {accepts : Tag → Bool} {read : List Bytes → Option α} {block : Block}
    {value : α} (hwidth : block.tag.width = block.width) (haccepts : accepts block.tag = true)
    (h : ∀ pieces, List.Forall₂ (fun part piece => part.write = .ok piece) block.parts pieces →
      read pieces = some value) :
    Reads (readBlock accepts read) block value := by
  intro bytes hbytes
  obtain ⟨pieces, hpieces, hopen⟩ := openBlock_of_write hwidth hbytes
  unfold readBlock
  rw [hopen]
  dsimp only
  rw [if_pos haccepts, h pieces hpieces]

theorem Reads.leaf {accepts : Tag → Bool} {read : Bytes → Option α} {tag : Tag} {payload : Bytes}
    {value : α} (hwidth : tag.width = .short) (haccepts : accepts tag = true)
    (h : read payload = some value) :
    Reads (readLeaf accepts read) (.leaf tag payload) value := by
  apply Reads.of_parts hwidth haccepts
  intro pieces hpieces
  obtain ⟨piece, hpiece, rfl⟩ := forall₂_singleton_left_iff.mp hpieces
  rw [Part.write] at hpiece
  obtain rfl := Except.ok.inj hpiece
  exact h

/-! ## Nested blocks -/

/-- The bytes of blocks, one by one. -/
abbrev Written (blocks : List Block) (pieces : List Bytes) : Prop :=
  List.Forall₂ (fun block piece => block.toPart.write = .ok piece) blocks pieces

/-- The blocks with a tag. -/
def ofTag (tag : Tag) (blocks : List Block) : List Block :=
  blocks.filter (·.tag == tag)

/-- The bytes with a tag in front. -/
def select (tag : Tag) (pieces : List Bytes) : List Bytes :=
  pieces.filter (tagOf? · == some tag)

/-- Reads all blocks with a tag. -/
def readAll (tag : Tag) (read : Bytes → Option α) (pieces : List Bytes) : Option (List α) :=
  (select tag pieces).mapM read

/-- Reads the block with a tag, if there is just one. -/
def readOne (tag : Tag) (read : Bytes → Option α) (pieces : List Bytes) : Option α :=
  match select tag pieces with
  | [piece] => read piece
  | _ => none

theorem Reads.of_blocks {accepts : Tag → Bool} {read : List Bytes → Option α} {block : Block}
    {value : α} (hwidth : block.tag.width = block.width) (haccepts : accepts block.tag = true)
    (blocks : List Block) (hparts : block.parts = blocks.map Block.toPart)
    (h : ∀ pieces, Written blocks pieces → read pieces = some value) :
    Reads (readBlock accepts read) block value := by
  apply Reads.of_parts hwidth haccepts
  intro pieces hpieces
  rw [hparts] at hpieces
  exact h pieces (List.forall₂_map_left_iff.mp hpieces)

theorem ofTag_append (tag : Tag) (first second : List Block) :
    ofTag tag (first ++ second) = ofTag tag first ++ ofTag tag second :=
  List.filter_append ..

theorem ofTag_eq_self {tag : Tag} {blocks : List Block} (h : ∀ block ∈ blocks, block.tag = tag) :
    ofTag tag blocks = blocks := by
  refine List.filter_eq_self.mpr fun block hblock => ?_
  simp [h block hblock]

theorem ofTag_eq_nil {tag : Tag} {blocks : List Block} (h : ∀ block ∈ blocks, block.tag ≠ tag) :
    ofTag tag blocks = [] := by
  refine List.filter_eq_nil_iff.mpr fun block hblock => ?_
  simp [h block hblock]

theorem Written.select {blocks : List Block} {pieces : List Bytes} (h : Written blocks pieces)
    (tag : Tag) : Written (ofTag tag blocks) (select tag pieces) := by
  induction h with
  | nil => exact .nil
  | @cons block piece _ _ hpiece _ ih =>
    have htag := tagOf?_of_write hpiece
    unfold ofTag Resource.select
    by_cases hsame : block.tag = tag
    · rw [List.filter_cons_of_pos (by simp [hsame]),
        List.filter_cons_of_pos (by simp [htag, hsame])]
      exact .cons hpiece ih
    · rw [List.filter_cons_of_neg (by simp [hsame]),
        List.filter_cons_of_neg (by simp [htag, hsame])]
      exact ih

/-- What is read in each of the blocks is read in all. -/
theorem Written.mapM_eq {blocks : List Block} {pieces : List Bytes} (h : Written blocks pieces)
    {read : Bytes → Option α} {values : List α} (hreads : List.Forall₂ (Reads read) blocks values) :
    pieces.mapM read = some values := by
  rw [mapM_eq_some_iff]
  induction h generalizing values with
  | nil =>
    cases hreads
    exact .nil
  | cons hpiece _ ih =>
    cases hreads with
    | cons hread hrest => exact .cons (hread _ hpiece) (ih hrest)

/-! ## Groups of blocks -/

/-- Blocks in groups, each under the tag of all its blocks. -/
structure Grouped (groups : List (Tag × List Block)) : Prop where
  tags : ∀ group ∈ groups, ∀ block ∈ group.2, block.tag = group.1
  distinct : (groups.map Prod.fst).Nodup

/-- Tags find the groups again when they stand one behind the other. -/
theorem Grouped.ofTag_eq {groups : List (Tag × List Block)} (h : Grouped groups)
    {group : Tag × List Block} (hgroup : group ∈ groups) :
    ofTag group.1 (groups.flatMap Prod.snd) = group.2 := by
  induction groups with
  | nil => exact absurd hgroup List.not_mem_nil
  | cons first rest ih =>
    obtain ⟨hfresh, hdistinct⟩ := List.nodup_cons.mp h.distinct
    have hfirst : ∀ block ∈ first.2, block.tag = first.1 := h.tags first List.mem_cons_self
    have hrest : ∀ other ∈ rest, ∀ block ∈ other.2, block.tag = other.1 :=
      fun other hother => h.tags other (List.mem_cons_of_mem first hother)
    rw [List.flatMap_cons, ofTag_append]
    rcases List.mem_cons.mp hgroup with rfl | hmem
    · -- No group behind has the tag of the first.
      rw [ofTag_eq_self hfirst, ofTag_eq_nil, List.append_nil]
      intro block hblock htag
      obtain ⟨other, hother, hblock⟩ := List.mem_flatMap.mp hblock
      rw [hrest other hother block hblock] at htag
      exact hfresh (htag ▸ List.mem_map_of_mem hother)
    · rw [ofTag_eq_nil, List.nil_append, ih ⟨hrest, hdistinct⟩ hmem]
      intro block hblock htag
      rw [hfirst block hblock] at htag
      exact hfresh (htag ▸ List.mem_map_of_mem hmem)

section

variable {groups : List (Tag × List Block)} {pieces : List Bytes} {read : Bytes → Option α}

theorem Grouped.readAll_eq {blocks : List Block} {values : List α} (h : Grouped groups)
    (hpieces : Written (groups.flatMap Prod.snd) pieces) (tag : Tag)
    (hgroup : (tag, blocks) ∈ groups) (hreads : List.Forall₂ (Reads read) blocks values) :
    readAll tag read pieces = some values := by
  have hselect := hpieces.select tag
  rw [h.ofTag_eq hgroup] at hselect
  exact hselect.mapM_eq hreads

theorem Grouped.readOne_eq {block : Block} {value : α} (h : Grouped groups)
    (hpieces : Written (groups.flatMap Prod.snd) pieces) (tag : Tag)
    (hgroup : (tag, [block]) ∈ groups) (hread : Reads read block value) :
    readOne tag read pieces = some value := by
  have hselect := hpieces.select tag
  rw [h.ofTag_eq hgroup] at hselect
  obtain ⟨piece, hpiece, hsame⟩ := forall₂_singleton_left_iff.mp hselect
  unfold readOne
  rw [hsame]
  exact hread piece hpiece

end

end

end RoomForge.Resource
