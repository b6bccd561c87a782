import Mathlib.Algebra.Ring.Nat
import RoomForge.Proofs.Strips

set_option autoImplicit false

/-! # Which strips describe a mask

A strip is read if it is cut into segments of 1 to 127 rows that fill the height exactly, however
long the single segments are and whatever the bits behind the right edge. A mask is written in one
way only: all segments but the last are full, and nothing is set behind the edge (specification,
section 4.5). So a mask is always found again in its strips, and strips in their mask if they have
this form: `strips_describe_masks`.
-/

namespace RoomForge

theorem map_range_eq_iff {α : Type} {f : Nat → α} {items : List α} :
    (List.range items.length).map f = items ↔
      ∀ index item, items[index]? = some item → f index = item := by
  rw [List.ext_getElem?_iff]
  refine forall_congr' fun index => ?_
  by_cases hindex : index < items.length
  · simp [hindex]
  · simp [hindex]

end RoomForge

namespace RoomForge.Picture

namespace Strip

/-! ## Segments -/

/-- The rows of a segment, as many as its count can say. -/
structure Segment where
  rows : Bytes
  pos : 1 ≤ rows.length
  short : rows.length ≤ 127

/-- A segment is the number of its rows, followed by them. -/
def Segment.bytes (segment : Segment) : Bytes :=
  UInt8.ofNat segment.rows.length :: segment.rows

/-- The rows of segments, from the top. -/
def rowsOf (pieces : List Segment) : Bytes :=
  pieces.flatMap Segment.rows

/-- The strip is the row of segments `pieces`, whose counts add up to `height`. -/
structure CutInto (height : Nat) (strip : Bytes) (pieces : List Segment) : Prop where
  bytes_eq : strip = pieces.flatMap Segment.bytes
  height_eq : (pieces.map fun piece => piece.rows.length).sum = height

theorem CutInto.length_rowsOf {height : Nat} {strip : Bytes} {pieces : List Segment}
    (h : CutInto height strip pieces) : (rowsOf pieces).length = height := by
  rw [rowsOf, List.length_flatMap, h.height_eq]

theorem rowsOf_cons (piece : Segment) (rest : List Segment) :
    rowsOf (piece :: rest) = piece.rows ++ rowsOf rest :=
  List.flatMap_cons

/-- Segments are read as their rows. -/
theorem readRows_flatMap (pieces : List Segment) (taken : Bytes) :
    readRows (rowsOf pieces).length (pieces.flatMap Segment.bytes) taken =
      some (taken.reverse ++ rowsOf pieces) := by
  induction pieces generalizing taken with
  | nil =>
    rw [List.flatMap_nil, readRows]
    simp [rowsOf]
  | cons piece rest ih =>
    rw [List.flatMap_cons, Segment.bytes, List.cons_append, rowsOf_cons, List.length_append,
      readRows_segment (List.length_pos_iff.mp piece.pos) piece.short (Nat.le_add_right _ _),
      Nat.add_sub_cancel_left, ih]
    simp

/-- Only segments are read. -/
theorem exists_cutInto_of_readRows {left : Nat} {strip taken rows : Bytes}
    (h : readRows left strip taken = some rows) : ∃ pieces, CutInto left strip pieces := by
  fun_induction readRows left strip taken with
  | case1 => exact ⟨[], rfl, rfl⟩
  | case2 | case3 => exact absurd h (by simp)
  | case4 left taken count rest size head hsize ih =>
    obtain ⟨pieces, hbytes, hheight⟩ := ih h
    unfold segmentRows at hsize
    have hlength : head.length = size := by
      have hle : head.length ≤ size := List.length_take_le _ _
      omega
    refine ⟨⟨head, by omega, by omega⟩ :: pieces, ?_, ?_⟩
    · have hcount : UInt8.ofNat head.length = count := by rw [hlength, UInt8.ofNat_toNat]
      rw [List.flatMap_cons, ← hbytes, Segment.bytes, hcount, List.cons_append,
        List.take_append_drop]
    · rw [List.map_cons, List.sum_cons, hheight, hlength]
      omega

theorem CutInto.readRows_eq {height : Nat} {strip : Bytes} {pieces : List Segment}
    (h : CutInto height strip pieces) : readRows height strip [] = some (rowsOf pieces) := by
  rw [h.bytes_eq, ← h.length_rowsOf, readRows_flatMap]
  rfl

/-- A strip is read exactly if it is cut into segments. -/
theorem exists_readRows_iff {height : Nat} {strip : Bytes} :
    (∃ rows, readRows height strip [] = some rows) ↔ ∃ pieces, CutInto height strip pieces := by
  constructor
  · rintro ⟨rows, hrows⟩
    exact exists_cutInto_of_readRows hrows
  · rintro ⟨pieces, hpieces⟩
    exact ⟨_, hpieces.readRows_eq⟩

theorem segments_eq_cons {rows : Bytes} (hpos : 1 ≤ rows.length) :
    segments rows = UInt8.ofNat (min segmentRows rows.length) ::
      (rows.take segmentRows ++ segments (rows.drop segmentRows)) := by
  have hrows : rows.isEmpty = false := by
    cases rows with
    | nil => exact absurd hpos (by decide)
    | cons first others => rfl
  rw [segments, hrows]
  simp

/-- Rows in front that fill a segment are one. -/
theorem segments_append {head : Bytes} (hfull : head.length = segmentRows) (rest : Bytes) :
    segments (head ++ rest) = UInt8.ofNat head.length :: (head ++ segments rest) := by
  have hpos : 1 ≤ (head ++ rest).length := by
    rw [List.length_append, hfull, segmentRows]
    omega
  rw [segments_eq_cons hpos, ← hfull]
  simp

theorem segments_of_short {rows : Bytes} (hpos : 1 ≤ rows.length)
    (hshort : rows.length ≤ segmentRows) : segments rows = UInt8.ofNat rows.length :: rows := by
  rw [segments_eq_cons hpos, Nat.min_eq_right hshort, List.take_of_length_le hshort,
    List.drop_of_length_le hshort, segments]
  simp

/-- Rows are cut into these segments if all but the last are full. -/
theorem segments_rowsOf_iff (pieces : List Segment) :
    segments (rowsOf pieces) = pieces.flatMap Segment.bytes ↔
      ∀ piece ∈ pieces.dropLast, piece.rows.length = 127 := by
  induction pieces with
  | nil => simp [rowsOf, segments]
  | cons piece rest ih =>
    cases rest with
    | nil =>
      have hrows : rowsOf [piece] = piece.rows := by simp [rowsOf]
      have hbytes : [piece].flatMap Segment.bytes = piece.bytes := by simp
      rw [hrows, hbytes, segments_of_short piece.pos piece.short]
      simp [Segment.bytes]
    | cons next others =>
      rw [List.dropLast_cons_of_ne_nil (List.cons_ne_nil next others), List.forall_mem_cons]
      by_cases hfull : piece.rows.length = 127
      · rw [rowsOf_cons, segments_append hfull, List.flatMap_cons, Segment.bytes, List.cons_append,
          List.cons_inj_right, List.append_cancel_left_eq, ih]
        simp [hfull]
      · -- A segment that is not full leaves room for rows of the next one.
        refine iff_of_false (fun h => hfull ?_) (fun h => hfull h.1)
        have hpos := piece.pos
        have hshort := piece.short
        have hnext := next.pos
        have hlength : (rowsOf (piece :: next :: others)).length =
            piece.rows.length + (next.rows.length + (rowsOf others).length) := by
          rw [rowsOf_cons, rowsOf_cons, List.length_append, List.length_append]
        rw [segments_eq_cons (by omega), List.flatMap_cons, Segment.bytes, List.cons_append,
          hlength] at h
        have hcount := congrArg UInt8.toNat (List.cons.inj h).1
        rw [UInt8.toNat_ofNat', UInt8.toNat_ofNat', segmentRows] at hcount
        omega

/-- The rows of segments are cut into the same segments if all but the last are full. -/
theorem segments_eq_iff {height : Nat} {strip rows : Bytes} {pieces : List Segment}
    (h : CutInto height strip pieces) (hlength : rows.length = height) :
    segments rows = strip ↔
      rows = rowsOf pieces ∧ ∀ piece ∈ pieces.dropLast, piece.rows.length = 127 := by
  constructor
  · intro hstrip
    have hread := readRows_segments rows []
    rw [hlength, hstrip, h.readRows_eq] at hread
    have hrows : rowsOf pieces = rows := by simpa using hread
    rw [← segments_rowsOf_iff, hrows, hstrip, h.bytes_eq]
    exact ⟨rfl, rfl⟩
  · rintro ⟨rfl, hfull⟩
    rw [h.bytes_eq]
    exact (segments_rowsOf_iff pieces).mpr hfull

/-! ## Bits of rows -/

/-- The bit of a row's byte that stands for one of the strip's columns. -/
def rowBit (row : UInt8) (column : Nat) : Bool :=
  row.toBitVec.getLsbD (7 - column)

theorem and_columnBit_ne_zero (row : UInt8) {column : Nat} (hcolumn : column < columns) :
    (row &&& columnBit column != 0) = rowBit row column := by
  have hpower : ∀ column : Fin 8,
      (columnBit column.val).toBitVec = BitVec.twoPow 8 (7 - column.val) ∧
        BitVec.twoPow 8 (7 - column.val) ≠ 0 := by decide
  obtain ⟨hbit, hne⟩ := hpower ⟨column, hcolumn⟩
  rw [Bool.eq_iff_iff, bne_iff_ne, ne_eq, ← UInt8.toBitVec_inj, UInt8.toBitVec_and, hbit,
    BitVec.and_twoPow, rowBit]
  cases row.toBitVec.getLsbD (7 - column) with
  | true => simpa using hne
  | false => simp

/-- A byte is known by its bits. -/
theorem eq_of_rowBit {first second : UInt8}
    (h : ∀ column < columns, rowBit first column = rowBit second column) : first = second := by
  apply UInt8.eq_of_toBitVec_eq
  apply BitVec.eq_of_getLsbD_eq
  intro place hplace
  have hbit := h (7 - place) (by unfold columns; omega)
  unfold rowBit at hbit
  rwa [show 7 - (7 - place) = place by omega] at hbit

theorem rowBit_rowByte (mask : Mask) (strip y : Nat) {column : Nat} (hcolumn : column < columns) :
    rowBit (rowByte mask strip y) column = mask.bit (strip * columns + column) y := by
  rw [← and_columnBit_ne_zero _ hcolumn, rowByte_and_columnBit mask strip y hcolumn]

/-- The segments of strip number `index` of a mask: all but the last are full, and no bit is set
behind the right edge. -/
structure Tight (width index : Nat) (pieces : List Segment) : Prop where
  full : ∀ piece ∈ pieces.dropLast, piece.rows.length = 127
  clear : ∀ row ∈ rowsOf pieces, ∀ column < 8, width ≤ index * 8 + column →
    rowBit row column = false

end Strip

/-! ## Masks -/

namespace Mask

/-- The mask has the bits of `rows` in the columns of strip number `index`. -/
def Shows (mask : Mask) (index : Nat) (rows : Bytes) : Prop :=
  ∀ (y : Nat) (row : UInt8), rows[y]? = some row → ∀ column < 8,
    index * 8 + column < mask.width.toNat →
      mask.bit (index * 8 + column) y = Strip.rowBit row column

theorem bit_ofBits {width height : UInt16} {bit : Nat → Nat → Bool} {x y : Nat}
    (hx : x < width.toNat) (hy : y < height.toNat) :
    (ofBits width height bit).bit x y = bit x y := by
  have hplace : y * width.toNat + x < width.toNat * height.toNat := by
    calc y * width.toNat + x < y * width.toNat + width.toNat := Nat.add_lt_add_left hx _
      _ = (y + 1) * width.toNat := (Nat.succ_mul _ _).symm
      _ ≤ height.toNat * width.toNat := Nat.mul_le_mul_right _ hy
      _ = width.toNat * height.toNat := Nat.mul_comm _ _
  have hcolumn : (y * width.toNat + x) % width.toNat = x := by
    rw [Nat.mul_add_mod_self_right, Nat.mod_eq_of_lt hx]
  have hrow : (y * width.toNat + x) / width.toNat = y := by
    rw [Nat.mul_comm, Nat.mul_add_div (Nat.zero_lt_of_lt hx), Nat.div_eq_of_lt hx, Nat.add_zero]
  dsimp only [Mask.bit, ofBits]
  rw [if_pos hx, Array.getElem?_ofFn, dif_pos hplace, Option.getD_some, hcolumn, hrow]

theorem bit_of_width_le {mask : Mask} {x : Nat} (h : mask.width.toNat ≤ x) (y : Nat) :
    mask.bit x y = false :=
  if_neg (Nat.not_lt.mpr h)

section

variable {strips : List Bytes} {width height : UInt16} {mask : Mask}

/-- Strips describe a mask if there are as many as it takes and all of them can be read. -/
theorem exists_ofStrips?_iff :
    (∃ mask, ofStrips? strips width height = some mask) ↔
      strips.length = Strip.count width ∧
        ∀ strip ∈ strips, ∃ rows, Strip.readRows height.toNat strip [] = some rows := by
  unfold ofStrips?
  split
  · next hcount => simp [hcount]
  · next hcount =>
    rw [not_not] at hcount
    constructor
    · rintro ⟨mask, hmask⟩
      obtain ⟨rows, hrows, -⟩ := Option.bind_eq_some_iff.mp hmask
      refine ⟨hcount, fun strip hstrip => ?_⟩
      obtain ⟨row, -, hrow⟩ := exists_left_of_forall₂ (mapM_eq_some_iff.mp hrows).flip hstrip
      exact ⟨row, hrow⟩
    · rintro ⟨-, hread⟩
      obtain ⟨rows, hrows⟩ := exists_forall₂ hread
      rw [mapM_eq_some_iff.mpr hrows]
      exact ⟨_, rfl⟩

/-- The mask that strips describe has the bits of their rows. -/
theorem shows_of_ofStrips? (h : ofStrips? strips width height = some mask) :
    mask.width = width ∧ mask.height = height ∧
      ∀ (index : Nat) (strip rows : Bytes), strips[index]? = some strip →
        Strip.readRows height.toNat strip [] = some rows → rows.length = height.toNat →
          mask.Shows index rows := by
  unfold ofStrips? at h
  split at h
  · exact absurd h (by simp)
  · obtain ⟨table, htable, hmask⟩ := Option.bind_eq_some_iff.mp h
    obtain rfl := Option.some.inj hmask
    refine ⟨rfl, rfl, ?_⟩
    intro index strip rows hstrip hrows hlength y row hrow column hcolumn hwidth
    have hx : index * 8 + column < width.toNat := hwidth
    have hread : table[index]? = some rows := by
      have hpairs := mapM_eq_some_iff.mp htable
      obtain ⟨hindex, rfl⟩ := List.getElem?_eq_some_iff.mp hstrip
      have hbound : index < table.length := hpairs.length_eq ▸ hindex
      have hpair : Strip.readRows height.toNat strips[index] [] = some table[index] :=
        hpairs.get hindex hbound
      rw [List.getElem?_eq_getElem hbound, ← hpair, hrows]
    have hy : y < height.toNat := hlength ▸ (List.getElem?_eq_some_iff.mp hrow).1
    have hindex : (index * 8 + column) / 8 = index := by omega
    have hplace : (index * 8 + column) % 8 = column := by omega
    rw [bit_ofBits hx hy, ← Strip.and_columnBit_ne_zero row hcolumn]
    simp [Strip.columns, hindex, hplace, hread, hrow]

/-- A row is written as it was read if nothing is set in it behind the right edge. -/
theorem rowByte_eq_iff {index : Nat} {rows : Bytes} (h : mask.Shows index rows) {y : Nat}
    {row : UInt8} (hrow : rows[y]? = some row) :
    Strip.rowByte mask index y = row ↔
      ∀ column < 8, mask.width.toNat ≤ index * 8 + column → Strip.rowBit row column = false := by
  constructor
  · rintro rfl column hcolumn hedge
    rw [Strip.rowBit_rowByte mask index y hcolumn]
    exact bit_of_width_le hedge y
  · intro hclear
    apply Strip.eq_of_rowBit
    intro column hcolumn
    rw [Strip.rowBit_rowByte mask index y hcolumn]
    by_cases hx : index * 8 + column < mask.width.toNat
    · exact h y row hrow column hcolumn hx
    · rw [hclear column hcolumn (Nat.not_lt.mp hx)]
      exact bit_of_width_le (Nat.not_lt.mp hx) y

/-- A strip is written as it was read if its segments are tight. -/
theorem encode_eq_iff {index : Nat} {strip : Bytes} {pieces : List Strip.Segment}
    (hcut : Strip.CutInto mask.height.toNat strip pieces)
    (h : mask.Shows index (Strip.rowsOf pieces)) :
    Strip.encode mask index = strip ↔ Strip.Tight mask.width.toNat index pieces := by
  have hrows : (List.range mask.height.toNat).map (Strip.rowByte mask index) =
      Strip.rowsOf pieces ↔ ∀ row ∈ Strip.rowsOf pieces, ∀ column < 8,
        mask.width.toNat ≤ index * 8 + column → Strip.rowBit row column = false := by
    rw [← hcut.length_rowsOf, map_range_eq_iff]
    constructor
    · intro hsame row hmem
      obtain ⟨y, hrow⟩ := List.mem_iff_getElem?.mp hmem
      exact (rowByte_eq_iff h hrow).mp (hsame y row hrow)
    · intro hclear y row hrow
      exact (rowByte_eq_iff h hrow).mpr (hclear row (List.mem_of_getElem? hrow))
  rw [Strip.encode, Strip.segments_eq_iff hcut (by simp), hrows]
  exact ⟨fun ⟨hclear, hfull⟩ => ⟨hfull, hclear⟩, fun ⟨hfull, hclear⟩ => ⟨hclear, hfull⟩⟩

end

end Mask

/-- A mask is read from its strips. Strips are read as a mask exactly if there is one for every
eight columns and each is cut into segments that fill the height; the mask then has the bits of
their rows. They are the strips of that mask exactly if their segments are tight. -/
theorem strips_describe_masks :
    (∀ mask : Mask, Mask.ofStrips? mask.toStrips mask.width mask.height = some mask) ∧
      ∀ (strips : List Bytes) (width height : UInt16),
        ((∃ mask, Mask.ofStrips? strips width height = some mask) ↔
          strips.length = (width.toNat + 7) / 8 ∧
            ∀ strip ∈ strips, ∃ pieces, Strip.CutInto height.toNat strip pieces) ∧
        ∀ mask, Mask.ofStrips? strips width height = some mask →
          mask.width = width ∧ mask.height = height ∧
          (∀ index strip pieces, strips[index]? = some strip →
            Strip.CutInto height.toNat strip pieces → mask.Shows index (Strip.rowsOf pieces)) ∧
          (mask.toStrips = strips ↔ ∀ index strip pieces, strips[index]? = some strip →
            Strip.CutInto height.toNat strip pieces →
              Strip.Tight width.toNat index pieces) := by
  refine ⟨Mask.ofStrips?_toStrips, fun strips width height => ⟨?_, fun mask hmask => ?_⟩⟩
  · rw [Mask.exists_ofStrips?_iff]
    simp only [Strip.exists_readRows_iff]
    rfl
  · obtain ⟨hcount, hread⟩ := Mask.exists_ofStrips?_iff.mp ⟨mask, hmask⟩
    obtain ⟨rfl, rfl, hshows⟩ := Mask.shows_of_ofStrips? hmask
    have hshown : ∀ index strip pieces, strips[index]? = some strip →
        Strip.CutInto mask.height.toNat strip pieces →
          mask.Shows index (Strip.rowsOf pieces) := by
      intro index strip pieces hstrip hcut
      exact hshows index strip _ hstrip hcut.readRows_eq hcut.length_rowsOf
    refine ⟨rfl, rfl, hshown, ?_⟩
    rw [Mask.toStrips, ← hcount, map_range_eq_iff]
    constructor
    · intro hsame index strip pieces hstrip hcut
      have hwritten := hsame index strip hstrip
      exact (Mask.encode_eq_iff hcut (hshown index strip pieces hstrip hcut)).mp hwritten
    · intro htight index strip hstrip
      obtain ⟨pieces, hcut⟩ :=
        Strip.exists_readRows_iff.mp (hread strip (List.mem_of_getElem? hstrip))
      have hpieces := htight index strip pieces hstrip hcut
      exact (Mask.encode_eq_iff hcut (hshown index strip pieces hstrip hcut)).mpr hpieces

/-- Strips of a mask of ten columns and two rows, the first in two segments. -/
def looseStrips : List Bytes :=
  [[1, 0xC3, 1, 0x81], [2, 0xC0, 0x40]]

theorem looseStrips_describe_a_mask :
    ∃ mask, Mask.ofStrips? looseStrips 10 2 = some mask ∧ mask.Shows 0 [0xC3, 0x81] ∧
      mask.toStrips ≠ looseStrips := by
  obtain ⟨hread, hmask⟩ := strips_describe_masks.2 looseStrips 10 2
  have hfirst : Strip.CutInto 2 [1, 0xC3, 1, 0x81]
      [⟨[0xC3], by decide, by decide⟩, ⟨[0x81], by decide, by decide⟩] := ⟨rfl, rfl⟩
  have hsecond : Strip.CutInto 2 [2, 0xC0, 0x40] [⟨[0xC0, 0x40], by decide, by decide⟩] :=
    ⟨rfl, rfl⟩
  obtain ⟨mask, hfound⟩ := hread.mpr ⟨rfl, by
    intro strip hstrip
    rcases List.mem_cons.mp hstrip with rfl | hstrip
    · exact ⟨_, hfirst⟩
    · exact ⟨_, List.mem_singleton.mp hstrip ▸ hsecond⟩⟩
  obtain ⟨-, -, hshows, htight⟩ := hmask mask hfound
  refine ⟨mask, hfound, hshows 0 _ _ rfl hfirst, fun hsame => ?_⟩
  have hfull := (htight.mp hsame 0 _ _ rfl hfirst).full _ List.mem_cons_self
  exact absurd hfull (by decide)

end RoomForge.Picture
