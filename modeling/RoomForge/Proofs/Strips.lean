import RoomForge.Picture.Strip
import RoomForge.Proofs.Fallible

set_option autoImplicit false

/-! # Masks are found again in their strips

Segments give the rows of a strip back, the byte of a row gives its eight bits back, and so the
strips of a mask describe it and no other: `ofStrips?_toStrips`, the round trip of section 10 of the
specification.
-/

namespace RoomForge.Picture

namespace Strip

/-! ## Segments -/

/-- A segment in front is taken as its rows. -/
theorem readRows_segment {head : Bytes} (hpos : head ≠ []) (hshort : head.length ≤ segmentRows)
    {left : Nat} (hleft : head.length ≤ left) (rest taken : Bytes) :
    readRows left (UInt8.ofNat head.length :: (head ++ rest)) taken =
      readRows (left - head.length) rest (head.reverse ++ taken) := by
  have hlength := List.length_pos_iff.mpr hpos
  have hsize : (UInt8.ofNat head.length).toNat = head.length := by
    unfold segmentRows at hshort
    rw [UInt8.toNat_ofNat']
    omega
  rw [readRows]
  simp only [hsize, List.take_left, List.drop_left]
  rw [if_neg (by omega)]

/-- The rows of a strip are found again in its segments. -/
theorem readRows_segments (rows taken : Bytes) :
    readRows rows.length (segments rows) taken = some (taken.reverse ++ rows) := by
  fun_induction segments rows generalizing taken with
  | case1 rows hrows =>
    rw [List.isEmpty_iff.mp hrows, readRows]
    simp
  | case2 rows hrows head ih =>
    have hrest : rows.length - head.length = (rows.drop segmentRows).length := by
      rw [List.length_take, List.length_drop]
      omega
    rw [readRows_segment, hrest, ih]
    · simp [head]
    · simpa [head, segmentRows] using hrows
    · exact List.length_take_le _ _
    · exact List.length_take_le' _ _

/-! ## The bytes of rows -/

theorem columnBit_and_columnBit {first second : Nat} (hfirst : first < columns)
    (hsecond : second < columns) : columnBit first &&& columnBit second = 0 ↔ first ≠ second := by
  have hall : ∀ first second : Fin 8,
      columnBit first.val &&& columnBit second.val = 0 ↔ first.val ≠ second.val := by decide
  exact hall ⟨first, hfirst⟩ ⟨second, hsecond⟩

theorem or_and_eq_zero_iff (first second byte : UInt8) :
    (first ||| second) &&& byte = 0 ↔ first &&& byte = 0 ∧ second &&& byte = 0 := by
  have hdistrib : (first ||| second) &&& byte = first &&& byte ||| second &&& byte := by
    apply UInt8.eq_of_toBitVec_eq
    ext place hplace
    simp [Bool.and_or_distrib_right]
  rw [hdistrib, UInt8.or_eq_zero_iff]

/-- Putting columns into a byte sets their bits and keeps the others. -/
theorem and_columnBit_foldl (bit : Nat → Bool) {column : Nat} (hcolumn : column < columns)
    (members : List Nat) (hmembers : ∀ member ∈ members, member < columns) (byte : UInt8) :
    members.foldl (fun byte column => if bit column then byte ||| columnBit column else byte)
        byte &&& columnBit column ≠ 0 ↔
      byte &&& columnBit column ≠ 0 ∨ column ∈ members ∧ bit column = true := by
  induction members generalizing byte with
  | nil => simp
  | cons member rest ih =>
    rw [List.foldl_cons, ih fun other hother => hmembers other (List.mem_cons_of_mem member hother)]
    have hmember := columnBit_and_columnBit (hmembers member List.mem_cons_self) hcolumn
    by_cases hbit : bit member = true
    · rw [if_pos hbit, ne_eq, or_and_eq_zero_iff, hmember, List.mem_cons]
      by_cases hsame : column = member
      · simp [hsame, hbit]
      · simp [hsame, Ne.symm hsame]
    · rw [if_neg hbit, List.mem_cons]
      by_cases hsame : column = member
      · simp [hsame, hbit]
      · simp [hsame]

/-- The byte of a row holds the bit of each of its columns. -/
theorem rowByte_and_columnBit (mask : Mask) (strip y : Nat) {column : Nat}
    (hcolumn : column < columns) :
    (rowByte mask strip y &&& columnBit column != 0) = mask.bit (strip * columns + column) y := by
  have hbit := and_columnBit_foldl (fun column => mask.bit (strip * columns + column) y) hcolumn
    (List.range columns) (fun member => List.mem_range.mp) 0
  rw [Bool.eq_iff_iff, bne_iff_ne, rowByte]
  simpa [hcolumn] using hbit

end Strip

/-! ## Masks -/

namespace Mask

theorem ofBits_congr {width height : UInt16} {first second : Nat → Nat → Bool}
    (h : ∀ x < width.toNat, ∀ y < height.toNat, first x y = second x y) :
    ofBits width height first = ofBits width height second := by
  have hbits : (fun place : Fin (width.toNat * height.toNat) =>
      first (place.val % width.toNat) (place.val / width.toNat)) =
      fun place => second (place.val % width.toNat) (place.val / width.toNat) := by
    funext place
    have hpos : 0 < width.toNat := Nat.pos_of_mul_pos_right (Nat.zero_lt_of_lt place.isLt)
    exact h _ (Nat.mod_lt _ hpos) _ (Nat.div_lt_of_lt_mul place.isLt)
  unfold ofBits
  simp only [hbits]

/-- A mask is made of its bits. -/
theorem ofBits_bit (mask : Mask) : ofBits mask.width mask.height mask.bit = mask := by
  obtain ⟨width, height, bits, sized⟩ := mask
  unfold ofBits
  congr 1
  apply Array.ext
  · rw [Array.size_ofFn, sized]
  · intro place _ hplace
    have hpos : 0 < width.toNat := by
      rw [sized] at hplace
      exact Nat.pos_of_mul_pos_right (Nat.zero_lt_of_lt hplace)
    rw [Array.getElem_ofFn]
    dsimp only [bit]
    rw [if_pos (Nat.mod_lt _ hpos), Nat.div_add_mod', Array.getElem?_eq_getElem hplace]
    rfl

/-- The strips of a mask describe it. -/
theorem ofStrips?_toStrips (mask : Mask) :
    ofStrips? mask.toStrips mask.width mask.height = some mask := by
  have hrows : mask.toStrips.mapM (fun strip => Strip.readRows mask.height.toNat strip []) =
      some ((List.range (Strip.count mask.width)).map fun strip =>
        (List.range mask.height.toNat).map (Strip.rowByte mask strip)) := by
    rw [mapM_eq_some_iff, toStrips, List.forall₂_map_left_iff, List.forall₂_map_right_iff,
      List.forall₂_same]
    intro strip _
    have hread := Strip.readRows_segments
      ((List.range mask.height.toNat).map (Strip.rowByte mask strip)) []
    rwa [List.length_map, List.length_range] at hread
  have hlength : mask.toStrips.length = Strip.count mask.width := by simp [toStrips]
  rw [ofStrips?, if_neg (not_not.mpr hlength), hrows]
  conv_rhs => rw [← ofBits_bit mask]
  show some (ofBits _ _ _) = _
  congr 1
  apply ofBits_congr
  intro x hx y hy
  have hstrip : x / Strip.columns < Strip.count mask.width := by
    unfold Strip.count Strip.columns
    omega
  have hcolumn : x % Strip.columns < Strip.columns := Nat.mod_lt _ (by decide)
  simp only [List.map_map, List.getElem?_toArray, List.getElem?_map]
  simp [hstrip, hy, Strip.rowByte_and_columnBit mask _ y hcolumn, Nat.div_add_mod']

end Mask

end RoomForge.Picture
