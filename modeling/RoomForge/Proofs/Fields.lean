import Mathlib.Algebra.Ring.Nat
import Mathlib.Data.List.TakeWhile
import Mathlib.Tactic.SplitIfs
import RoomForge.Text.Utf8

set_option autoImplicit false

/-! # Reading fields

The readers beside the writers of fields (specification, block tree of section 4.5): each takes its
field off the front of the bytes and answers with the value and the bytes behind it. A row of things
of one kind is read up to the end of the bytes, so it needs no count: `readMany_flatMap`.
-/

namespace RoomForge.Text

/-- A text is found again in its bytes. -/
theorem ofUtf8?_utf8 (text : String) : ofUtf8? (utf8 text) = some text := by
  have hbytes : (⟨(utf8 text).toArray⟩ : ByteArray) = text.toByteArray := by
    rw [← String.utf8Encode_toList]
    exact (ByteArray.ext List.data_toByteArray).symm
  unfold ofUtf8? String.fromUTF8?
  rw [hbytes, dif_pos text.isValidUTF8]
  rfl

theorem eq_utf8_of_ofUtf8? {bytes : Bytes} {text : String} (h : ofUtf8? bytes = some text) :
    bytes = utf8 text := by
  unfold ofUtf8? String.fromUTF8? at h
  split at h
  · have hbytes : text.toByteArray = ⟨bytes.toArray⟩ := by
      rw [← Option.some.inj h]
      rfl
    rw [← String.utf8Encode_toList] at hbytes
    have hdata : (utf8 text).toArray = bytes.toArray := by
      rw [← List.data_toByteArray]
      exact congrArg ByteArray.data hbytes
    exact (List.toArray_inj hdata).symm
  · exact absurd h (by simp)

/-- Only the character zero has a zero byte. -/
theorem zero_mem_utf8EncodeChar_iff (c : Char) : 0 ∈ String.utf8EncodeChar c ↔ c = '\x00' := by
  have hzero : c = '\x00' ↔ c.val.toNat = 0 := by
    rw [Char.ext_iff, ← UInt32.toNat_inj]
    rfl
  have hbyte (value : Nat) : 0 = UInt8.ofNat value ↔ value % 256 = 0 := by
    rw [← UInt8.toNat_inj, UInt8.toNat_ofNat', eq_comm]
    rfl
  rw [hzero]
  unfold String.utf8EncodeChar
  generalize c.val.toNat = code
  dsimp only
  -- All bytes of a character of several bytes have their highest bit set.
  split_ifs
  all_goals
    simp only [List.mem_cons, List.not_mem_nil, or_false, hbyte]
    omega

theorem zero_mem_utf8_iff (text : String) : 0 ∈ utf8 text ↔ '\x00' ∈ text.toList := by
  simp [utf8, zero_mem_utf8EncodeChar_iff]

end RoomForge.Text

namespace RoomForge.Bytes

/-- Takes a value off the front of the bytes. -/
abbrev Reader (α : Type) := Bytes → Option (α × Bytes)

/-- A reader takes `bytes` as `value`, whatever stands behind them. -/
def Reader.Takes {α : Type} (read : Reader α) (bytes : Bytes) (value : α) : Prop :=
  ∀ rest, read (bytes ++ rest) = some (value, rest)

/-! ## Words -/

/-- The digits of a number that fits give the number back. -/
theorem ofLittle_little {width n : Nat} (fits : n < 256 ^ width) :
    ofLittle (little width n) = n := by
  induction width generalizing n with
  | zero =>
    have : n = 0 := by simpa using fits
    rw [this]
    rfl
  | succ width ih =>
    have quotient : n / 256 < 256 ^ width := by
      rw [Nat.div_lt_iff_lt_mul (by decide), ← Nat.pow_succ]
      exact fits
    simp only [little, ofLittle, ih quotient, UInt8.toNat_ofNat']
    omega

/-- The digits of a number that fits, highest first, give the number back. -/
theorem ofBig_big {width n : Nat} (fits : n < 256 ^ width) : ofBig (big width n) = n := by
  simp only [ofBig, big, List.reverse_reverse]
  exact ofLittle_little fits

/-- Reads a byte. -/
def readByte : Reader UInt8
  | [] => none
  | byte :: rest => some (byte, rest)

/-- Reads an unsigned word, lowest byte first. -/
def readWord : Reader UInt16
  | low :: high :: rest => some (UInt16.ofNat (ofLittle [low, high]), rest)
  | _ => none

/-- Reads a signed word, lowest byte first. -/
def readSignedWord : Reader Int16 := fun bytes =>
  (readWord bytes).map fun (value, rest) => (value.toInt16, rest)

theorem readWord_takes (value : UInt16) : Reader.Takes readWord (word value) value := by
  intro rest
  have hfits : ofLittle (little 2 value.toNat) = value.toNat :=
    ofLittle_little value.toNat_lt
  show some (UInt16.ofNat (ofLittle (little 2 value.toNat)), rest) = _
  rw [hfits, UInt16.ofNat_toNat]

theorem readSignedWord_takes (value : Int16) :
    Reader.Takes readSignedWord (signedWord value) value := by
  intro rest
  unfold readSignedWord signedWord
  rw [readWord_takes]
  rfl

/-- Reads a value that takes all bytes. -/
def Reader.whole {α : Type} (read : Reader α) (bytes : Bytes) : Option α :=
  match read bytes with
  | some (value, []) => some value
  | _ => none

theorem Reader.Takes.whole_eq {α : Type} {read : Reader α} {bytes : Bytes} {value : α}
    (h : read.Takes bytes value) : read.whole bytes = some value := by
  have hread := h []
  rw [List.append_nil] at hread
  unfold Reader.whole
  rw [hread]

@[simp] theorem readByte_cons (value : UInt8) (rest : Bytes) :
    readByte (value :: rest) = some (value, rest) := rfl

@[simp] theorem readWord_append (value : UInt16) (rest : Bytes) :
    readWord (word value ++ rest) = some (value, rest) :=
  readWord_takes value rest

@[simp] theorem readSignedWord_append (value : Int16) (rest : Bytes) :
    readSignedWord (signedWord value ++ rest) = some (value, rest) :=
  readSignedWord_takes value rest

/-! ## Texts -/

/-- Reads a text up to the first zero byte, which is taken too. -/
def readText : Reader String := fun bytes =>
  match bytes.dropWhile (· != 0) with
  | [] => none
  | _ :: rest => (Text.ofUtf8? (bytes.takeWhile (· != 0))).map fun text => (text, rest)

/-- A text without the character zero is read up to the zero behind it. -/
theorem readText_takes {text : String} (h : '\x00' ∉ text.toList) :
    Reader.Takes readText (Text.utf8 text ++ [0]) text := by
  intro rest
  have hbytes : ∀ byte ∈ Text.utf8 text, (byte != 0) = true := by
    intro byte hbyte
    rw [bne_iff_ne]
    rintro rfl
    exact h ((Text.zero_mem_utf8_iff text).mp hbyte)
  unfold readText
  rw [List.append_assoc, List.dropWhile_append_of_pos hbytes, List.takeWhile_append_of_pos hbytes]
  simp [Text.ofUtf8?_utf8]

/-- No text that is read holds the character zero. -/
theorem zero_notMem_of_readText {bytes rest : Bytes} {text : String}
    (h : readText bytes = some (text, rest)) : '\x00' ∉ text.toList := by
  unfold readText at h
  split at h
  · exact absurd h (by simp)
  · obtain ⟨found, hfound, hpair⟩ := Option.map_eq_some_iff.mp h
    obtain ⟨rfl, rfl⟩ := Prod.mk.inj hpair
    intro hzero
    rw [← Text.zero_mem_utf8_iff, ← Text.eq_utf8_of_ofUtf8? hfound] at hzero
    exact absurd (List.mem_takeWhile_imp hzero) (by decide)

/-! ## Rows -/

section

variable {α : Type} {read : Reader α}

/-- Reads things one behind the other, up to the end of the bytes. A thing takes at least a byte. -/
def readMany (read : Reader α) (bytes : Bytes) : Option (List α) :=
  if bytes = [] then some []
  else
    match read bytes with
    | none => none
    | some (value, rest) =>
      if rest.length < bytes.length then (readMany read rest).map (value :: ·) else none
termination_by bytes.length

/-- Of things written one behind the other, what is read of each is read one behind the other. -/
theorem readMany_flatMap_map {β : Type} {write : β → Bytes} {view : β → α} {values : List β}
    (htakes : ∀ value ∈ values, Reader.Takes read (write value) (view value))
    (hne : ∀ value ∈ values, write value ≠ []) :
    readMany read (values.flatMap write) = some (values.map view) := by
  induction values with
  | nil => rw [readMany]; rfl
  | cons value rest ih =>
    have hpos := List.length_pos_iff.mpr (hne value List.mem_cons_self)
    have hcons : (value :: rest).flatMap write ≠ [] := by
      rw [List.flatMap_cons]
      exact List.append_ne_nil_of_left_ne_nil (hne value List.mem_cons_self) _
    have htail := ih (fun other hother => htakes other (List.mem_cons_of_mem value hother))
      (fun other hother => hne other (List.mem_cons_of_mem value hother))
    rw [readMany, if_neg hcons, List.flatMap_cons, htakes value List.mem_cons_self]
    dsimp only
    rw [if_pos (by rw [List.length_append]; omega), htail]
    rfl

/-- Things written one behind the other are read one behind the other. -/
theorem readMany_flatMap {write : α → Bytes} {values : List α}
    (htakes : ∀ value ∈ values, Reader.Takes read (write value) value)
    (hne : ∀ value ∈ values, write value ≠ []) :
    readMany read (values.flatMap write) = some values := by
  rw [readMany_flatMap_map htakes hne, List.map_id']

/-- Each thing of a row was read somewhere. -/
theorem exists_read_of_mem_readMany {bytes : Bytes} {values : List α}
    (h : readMany read bytes = some values) {value : α} (hvalue : value ∈ values) :
    ∃ front rest, read front = some (value, rest) := by
  fun_induction readMany read bytes generalizing values with
  | case1 =>
    obtain rfl := Option.some.inj h
    exact absurd hvalue List.not_mem_nil
  | case2 => exact absurd h (by simp)
  | case3 bytes hne first rest hread hlt ih =>
    obtain ⟨tail, htail, rfl⟩ := Option.map_eq_some_iff.mp h
    rcases List.mem_cons.mp hvalue with rfl | hmem
    · exact ⟨bytes, rest, hread⟩
    · exact ih htail hmem
  | case4 => exact absurd h (by simp)

end

end RoomForge.Bytes
