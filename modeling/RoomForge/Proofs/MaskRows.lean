import RoomForge.Picture.Mask
import RoomForge.Proofs.Fallible
import RoomForge.Text.Utf8

set_option autoImplicit false

/-! # Masks from rows of text

A mask is read by writing one bit after the other at its place among all bits (specification,
section 6.3). While rows are of one length, the next place is the first that was not written yet:
the bits written so far stand in front and those behind are clear. The length of a row counts bytes
and its columns count characters, but a row with a character of more than one byte has fewer columns
than its length allows and fails at that character, so no place outside of the mask is written.

`masks_are_read_from_even_rows` says which rows are read and what is wrong with all others.
-/

namespace RoomForge.Picture.Mask

/-! ## Characters and bytes -/

/-- A character that stands for a bit. -/
def IsBit (c : Char) : Prop :=
  c = '0' ∨ c = '1'

theorem bitOf?_cases (c : Char) :
    IsBit c ∧ bitOf? c = some (c == '1') ∨ ¬ IsBit c ∧ bitOf? c = none := by
  unfold bitOf? IsBit
  split
  · exact .inl ⟨.inl rfl, rfl⟩
  · exact .inl ⟨.inr rfl, rfl⟩
  · next hzero hone => exact .inr ⟨not_or.mpr ⟨hzero, hone⟩, rfl⟩

theorem length_toList_le (text : String) : text.toList.length ≤ text.utf8ByteSize := by
  rw [← Text.length_utf8, Text.utf8]
  induction text.toList with
  | nil => exact Nat.le_refl 0
  | cons c rest ih =>
    have hpos := c.utf8Size_pos
    rw [List.flatMap_cons, List.length_append, String.length_utf8EncodeChar, List.length_cons]
    omega

theorem length_toList_of_isBit {text : String} (h : ∀ c ∈ text.toList, IsBit c) :
    text.toList.length = text.utf8ByteSize := by
  rw [← Text.length_utf8, Text.utf8]
  generalize text.toList = cs at h
  induction cs with
  | nil => rfl
  | cons c rest ih =>
    obtain ⟨hc, hrest⟩ := List.forall_mem_cons.mp h
    have hsize : c.utf8Size = 1 := by
      rcases hc with rfl | rfl <;> rfl
    rw [List.flatMap_cons, List.length_append, String.length_utf8EncodeChar, List.length_cons,
      ih hrest, hsize, Nat.add_comm]

/-! ## Writing -/

/-- A mask of the size whose first bits are `written`, and clear behind them. -/
structure Filled (width height : UInt16) (mask : Mask) (written : List Bool) : Prop where
  width_eq : mask.width = width
  height_eq : mask.height = height
  bits_eq : mask.bits.toList =
    written ++ List.replicate (width.toNat * height.toNat - written.length) false

section

variable {width height : UInt16} {mask : Mask} {written : List Bool}

theorem filled_clear (width height : UInt16) : Filled width height (clear width height) [] :=
  ⟨rfl, rfl, by simp [clear]⟩

/-- The first bit that was not written yet is written at its place. -/
theorem Filled.set? (h : Filled width height mask written) {x y : UInt16}
    (hplace : y.toNat * width.toNat + x.toNat = written.length)
    (hroom : written.length < width.toNat * height.toNat) (bit : Bool) :
    ∃ next, mask.set? x y bit = some next ∧ Filled width height next (written ++ [bit]) := by
  have hnext : mask.place x y = written.length := by rw [place, h.width_eq, hplace]
  have hsize : mask.place x y < mask.bits.size := by
    rwa [hnext, mask.sized, h.width_eq, h.height_eq]
  obtain ⟨behind, hbehind⟩ := Nat.exists_eq_add_of_lt hroom
  have hleft : width.toNat * height.toNat - written.length = behind + 1 := by omega
  have hleft' : width.toNat * height.toNat - (written ++ [bit]).length = behind := by
    rw [List.length_append, List.length_singleton]
    omega
  refine ⟨_, dif_pos hsize, h.width_eq, h.height_eq, ?_⟩
  rw [hleft', Array.toList_set, h.bits_eq, hnext, hleft, List.set_append_right _ _ (Nat.le_refl _),
    Nat.sub_self, List.replicate_succ, List.set_cons_zero, List.append_assoc]
  rfl

/-- A row is written up to its end, or up to a character that stands for no bit. -/
theorem writeRow_cases (cs : List Char) (index x : Nat) (h : Filled width height mask written)
    (hindex : index < height.toNat) (hx : x + cs.length ≤ width.toNat)
    (hplace : index * width.toNat + x = written.length) :
    (∃ next, writeRow index cs x mask = .ok next ∧ (∀ c ∈ cs, IsBit c) ∧
        Filled width height next (written ++ cs.map (· == '1'))) ∨
      ∃ c ∈ cs, ¬ IsBit c ∧ writeRow index cs x mask = .error (.badPixel c index) := by
  induction cs generalizing x mask written with
  | nil => exact .inl ⟨mask, rfl, by simp, by simpa using h⟩
  | cons c rest ih =>
    rw [writeRow]
    rcases bitOf?_cases c with ⟨hc, hbit⟩ | ⟨hc, hbit⟩
    · rw [List.length_cons] at hx
      have hrow : (index + 1) * width.toNat ≤ width.toNat * height.toNat := by
        rw [Nat.mul_comm width.toNat]
        exact Nat.mul_le_mul_right _ hindex
      rw [Nat.succ_mul] at hrow
      have hword : (UInt16.ofNat index).toNat * width.toNat + (UInt16.ofNat x).toNat =
          written.length := by
        have hheight := height.toNat_lt
        have hwidth := width.toNat_lt
        rwa [UInt16.toNat_ofNat_of_lt' (by show index < 2 ^ 16; omega),
          UInt16.toNat_ofNat_of_lt' (by show x < 2 ^ 16; omega)]
      obtain ⟨next, hset, hnext⟩ := h.set? hword (by omega) (c == '1')
      simp only [hbit, hset]
      have hnextPlace : index * width.toNat + (x + 1) = (written ++ [c == '1']).length := by
        rw [List.length_append, List.length_singleton, ← hplace, Nat.add_assoc]
      rcases ih (x + 1) hnext (by omega) hnextPlace with
        ⟨last, hlast, hrest, hfilled⟩ | ⟨bad, hmem, hbad, herror⟩
      · exact .inl ⟨last, hlast, List.forall_mem_cons.mpr ⟨hc, hrest⟩, by simpa using hfilled⟩
      · exact .inr ⟨bad, List.mem_cons_of_mem c hmem, hbad, herror⟩
    · simp only [hbit]
      exact .inr ⟨c, List.mem_cons_self, hc, rfl⟩

/-- A row of a mask `width` columns wide. -/
def IsRow (width : Nat) (row : String) : Prop :=
  row.utf8ByteSize = width ∧ ∀ c ∈ row.toList, IsBit c

/-- The bits of rows, in the order in which they are written. -/
def rowBits (rows : List String) : List Bool :=
  rows.flatMap fun row => row.toList.map (· == '1')

/-- Rows are written up to the last, or up to one that is none of the mask's; whatever the reason
for that is, no place outside of the mask was to be written. -/
theorem writeRows_cases (rows : List String) (index : Nat) (h : Filled width height mask written)
    (hindex : index + rows.length ≤ height.toNat) (hplace : index * width.toNat = written.length) :
    (∃ next, writeRows width.toNat rows index mask = .ok next ∧
        (∀ row ∈ rows, IsRow width.toNat row) ∧
        Filled width height next (written ++ rowBits rows)) ∨
      (∃ row ∈ rows, ¬ IsRow width.toNat row) ∧
        ∃ fault, writeRows width.toNat rows index mask = .error fault ∧
          ∀ column row, fault ≠ .outside column row := by
  induction rows generalizing index mask written with
  | nil => exact .inl ⟨mask, rfl, by simp, by simpa [rowBits] using h⟩
  | cons row rest ih =>
    rw [writeRows]
    rw [List.length_cons] at hindex
    by_cases hsize : row.utf8ByteSize = width.toNat
    · rw [if_neg (not_not.mpr hsize)]
      have hcolumns := length_toList_le row
      rcases writeRow_cases row.toList index 0 h (by omega) (by omega) (by omega) with
        ⟨next, hnext, hbits, hfilled⟩ | ⟨c, hc, hbad, herror⟩
      · rw [bind_of_eq_ok hnext]
        have hlength := length_toList_of_isBit hbits
        have hnextPlace : (index + 1) * width.toNat =
            (written ++ row.toList.map (· == '1')).length := by
          rw [List.length_append, List.length_map, hlength, hsize, Nat.succ_mul, hplace]
        rcases ih (index + 1) hfilled (by omega) hnextPlace with
          ⟨last, hlast, hrest, hlast'⟩ | ⟨⟨bad, hmem, hbad⟩, hfault⟩
        · exact .inl ⟨last, hlast, List.forall_mem_cons.mpr ⟨⟨hsize, hbits⟩, hrest⟩,
            by simpa [rowBits] using hlast'⟩
        · exact .inr ⟨⟨bad, List.mem_cons_of_mem row hmem, hbad⟩, hfault⟩
      · rw [herror]
        exact .inr ⟨⟨row, List.mem_cons_self, fun hrow => hbad (hrow.2 c hc)⟩, _, rfl, by simp⟩
    · rw [if_pos hsize]
      exact .inr ⟨⟨row, List.mem_cons_self, fun hrow => hsize hrow.1⟩, _, rfl, by simp⟩

/-! ## Reading bits back -/

/-- Where rows have one length, a row's number and a column give the place of a bit. -/
theorem getElem?_rowBits {width : Nat} {rows : List String} (h : ∀ row ∈ rows, IsRow width row)
    {x y : Nat} (hx : x < width) :
    (rowBits rows)[y * width + x]? =
      (rows[y]?.bind fun row => row.toList[x]?).map (· == '1') := by
  induction rows generalizing y with
  | nil => simp [rowBits]
  | cons row rest ih =>
    obtain ⟨hrow, hrest⟩ := List.forall_mem_cons.mp h
    have hlength : (row.toList.map (· == '1')).length = width := by
      rw [List.length_map, length_toList_of_isBit hrow.2, hrow.1]
    have hcons : rowBits (row :: rest) = row.toList.map (· == '1') ++ rowBits rest :=
      List.flatMap_cons
    cases y with
    | zero =>
      rw [hcons, Nat.zero_mul, Nat.zero_add, List.getElem?_append_left (by rw [hlength]; exact hx)]
      simp
    | succ y =>
      have hbehind : (y + 1) * width + x - width = y * width + x := by
        rw [Nat.succ_mul]
        omega
      rw [hcons, List.getElem?_append_right (by rw [hlength, Nat.succ_mul]; omega), hlength,
        hbehind, ih hrest]
      rfl

/-- A mask whose bits are those of rows shows their characters. -/
theorem Filled.pixel? {rows : List String} (h : Filled width height mask (rowBits rows))
    (hrows : ∀ row ∈ rows, IsRow width.toNat row) (hheight : height.toNat = rows.length)
    {x y : UInt16} (hx : x < mask.width) (hy : y < mask.height) :
    ∃ row c, rows[y.toNat]? = some row ∧ row.toList[x.toNat]? = some c ∧
      mask.pixel? x y = some (c == '1') := by
  rw [h.width_eq, UInt16.lt_iff_toNat_lt] at hx
  rw [h.height_eq, UInt16.lt_iff_toNat_lt, hheight] at hy
  have hcolumn : x.toNat < (rows[y.toNat]).toList.length := by
    have hrow := hrows _ (List.getElem_mem hy)
    rw [length_toList_of_isBit hrow.2, hrow.1]
    exact hx
  refine ⟨_, _, List.getElem?_eq_getElem hy, List.getElem?_eq_getElem hcolumn, ?_⟩
  have hbits : (rowBits rows)[y.toNat * width.toNat + x.toNat]? =
      some ((rows[y.toNat]).toList[x.toNat] == '1') := by
    rw [getElem?_rowBits hrows hx, List.getElem?_eq_getElem hy, Option.bind_some,
      List.getElem?_eq_getElem hcolumn, Option.map_some]
  have hplace := (List.getElem?_eq_some_iff.mp hbits).1
  rw [Mask.pixel?, place, h.width_eq, ← Array.getElem?_toList, h.bits_eq,
    List.getElem?_append_left hplace, hbits]

end

/-! ## Reading masks -/

/-- Rows that a mask can be read from. -/
def AreRows (rows : List String) : Prop :=
  rows.length ≤ 65535 ∧ ∃ width ≤ 65535, ∀ row ∈ rows, IsRow width row

/-- The width of the first row, or 0 if there is none. -/
def firstWidth (rows : List String) : Nat :=
  (rows.head?.map String.utf8ByteSize).getD 0

theorem areRows_iff (rows : List String) :
    AreRows rows ↔ rows.length ≤ 65535 ∧ firstWidth rows ≤ 65535 ∧
      ∀ row ∈ rows, IsRow (firstWidth rows) row := by
  refine ⟨fun ⟨hheight, width, hwidth, hrows⟩ => ⟨hheight, ?_⟩,
    fun ⟨hheight, hwidth, hrows⟩ => ⟨hheight, _, hwidth, hrows⟩⟩
  cases rows with
  | nil => exact ⟨Nat.zero_le _, by simp⟩
  | cons row rest =>
    have hfirst : firstWidth (row :: rest) = width := (hrows row List.mem_cons_self).1
    rw [hfirst]
    exact ⟨hwidth, hrows⟩

/-- Rows give the mask that shows them, or a fault that is none of a place. -/
theorem ofRows_cases (rows : List String) :
    (∃ mask width height, ofRows rows = .ok mask ∧ AreRows rows ∧
        width.toNat = firstWidth rows ∧ height.toNat = rows.length ∧
        (∀ row ∈ rows, IsRow width.toNat row) ∧ Filled width height mask (rowBits rows)) ∨
      ¬ AreRows rows ∧ ∃ fault, ofRows rows = .error fault ∧
        ∀ column row, fault ≠ .outside column row := by
  rw [areRows_iff]
  by_cases hwide : 65535 < firstWidth rows
  · exact .inr ⟨fun h => Nat.not_le.mpr hwide h.2.1, _, if_pos hwide, by simp⟩
  by_cases htall : 65535 < rows.length
  · exact .inr ⟨fun h => Nat.not_le.mpr htall h.1, _, (if_neg hwide).trans (if_pos htall), by simp⟩
  rw [Nat.not_lt] at hwide htall
  have hwidth : (UInt16.ofNat (firstWidth rows)).toNat = firstWidth rows :=
    UInt16.toNat_ofNat_of_lt' (Nat.lt_succ_of_le hwide)
  have hheight : (UInt16.ofNat rows.length).toNat = rows.length :=
    UInt16.toNat_ofNat_of_lt' (Nat.lt_succ_of_le htall)
  have hread : ofRows rows = writeRows (UInt16.ofNat (firstWidth rows)).toNat rows 0
      (clear (.ofNat (firstWidth rows)) (.ofNat rows.length)) := by
    rw [hwidth]
    exact (if_neg (Nat.not_lt.mpr hwide)).trans (if_neg (Nat.not_lt.mpr htall))
  rw [hread]
  have hclear := filled_clear (.ofNat (firstWidth rows)) (.ofNat rows.length)
  rcases writeRows_cases rows 0 hclear (by omega) (by simp) with
    ⟨mask, hmask, hrows, hfilled⟩ | ⟨⟨row, hmem, hrow⟩, hfault⟩
  · exact .inl ⟨mask, _, _, hmask, ⟨htall, hwide, hwidth ▸ hrows⟩, hwidth, hheight, hrows, hfilled⟩
  · rw [hwidth] at hrow
    exact .inr ⟨fun h => hrow (h.2.2 row hmem), hfault⟩

/-- Rows are read as a mask if and only if there are not too many of them, all have one length in
bytes that is not too large, and they hold no other characters than `0` and `1`. The mask has that
length as its width and the number of rows as its height, and its bits are the characters. No place
outside of the mask is ever written. -/
theorem masks_are_read_from_even_rows (rows : List String) :
    ((∃ mask, ofRows rows = .ok mask) ↔ rows.length ≤ 65535 ∧ ∃ width ≤ 65535, ∀ row ∈ rows,
      row.utf8ByteSize = width ∧ ∀ c ∈ row.toList, c = '0' ∨ c = '1') ∧
    (∀ mask, ofRows rows = .ok mask →
      mask.width.toNat = (rows.head?.map String.utf8ByteSize).getD 0 ∧
      mask.height.toNat = rows.length ∧
      ∀ x y : UInt16, x < mask.width → y < mask.height →
        ∃ row c, rows[y.toNat]? = some row ∧ row.toList[x.toNat]? = some c ∧
          mask.pixel? x y = some (c == '1')) ∧
    ∀ column row, ofRows rows ≠ .error (.outside column row) := by
  rcases ofRows_cases rows with
    ⟨mask, width, height, hread, hare, hwidth, hheight, hrows, hfilled⟩ |
      ⟨hnot, fault, hread, hfault⟩
  · refine ⟨⟨fun _ => hare, fun _ => ⟨mask, hread⟩⟩, fun found hfound => ?_, ?_⟩
    · obtain rfl : mask = found := Except.ok.inj (hread.symm.trans hfound)
      refine ⟨hfilled.width_eq ▸ hwidth, hfilled.height_eq ▸ hheight, fun x y hx hy => ?_⟩
      exact hfilled.pixel? hrows hheight hx hy
    · intro column row
      rw [hread]
      simp
  · refine ⟨⟨fun ⟨mask, hmask⟩ => ?_, fun hare => absurd hare hnot⟩, fun mask hmask => ?_, ?_⟩
    · exact absurd (hread.symm.trans hmask) (by simp)
    · exact absurd (hread.symm.trans hmask) (by simp)
    · intro column row herror
      exact hfault column row (Except.error.inj (hread.symm.trans herror))

example : ofRows ["01", "é"] = .error (.badPixel 'é' 1) := rfl

end RoomForge.Picture.Mask
