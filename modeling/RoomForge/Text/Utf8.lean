import RoomForge.Bytes

set_option autoImplicit false

/-! # UTF-8

Texts as bytes. Reading is strict for files, and lenient for tags, where every longest malformed run
of bytes is shown as one replacement character. `Text.ofUtf8?_utf8` in `Proofs.Fields` says that a
text is read back from its bytes.
-/

namespace RoomForge.Text

/-- The bytes of a text. -/
def utf8 (text : String) : Bytes :=
  text.toList.flatMap String.utf8EncodeChar

theorem length_utf8 (text : String) : (utf8 text).length = text.utf8ByteSize := by
  rw [← String.size_toByteArray, ← String.utf8Encode_toList]
  exact (List.size_toByteArray).symm

/-- The text that `bytes` spell, if they spell one. -/
def ofUtf8? (bytes : Bytes) : Option String :=
  String.fromUTF8? ⟨bytes.toArray⟩

/-- What the first byte of a character of several bytes says: how many bytes follow it, between
which bounds the next one lies, and the bits that it brings. -/
structure Lead where
  following : Nat
  low : UInt8 := 0x80
  high : UInt8 := 0xbf
  bits : Nat

/-- The meaning of the first byte of a character of several bytes. -/
def Lead.ofByte? (b : UInt8) : Option Lead :=
  if 0xc2 ≤ b ∧ b ≤ 0xdf then some { following := 1, bits := b.toNat - 0xc0 }
  else if b = 0xe0 then some { following := 2, low := 0xa0, bits := 0 }
  else if b = 0xed then some { following := 2, high := 0x9f, bits := 0xd }
  else if 0xe1 ≤ b ∧ b ≤ 0xef then some { following := 2, bits := b.toNat - 0xe0 }
  else if b = 0xf0 then some { following := 3, low := 0x90, bits := 0 }
  else if b = 0xf4 then some { following := 3, high := 0x8f, bits := 4 }
  else if 0xf1 ≤ b ∧ b ≤ 0xf3 then some { following := 3, bits := b.toNat - 0xf0 }
  else none

/-- Reads the bytes of a character behind its first: its number, if none is missing or out of
bounds, and what is left behind the bytes that belong together. -/
def readTail : (following : Nat) → (low high : UInt8) → (bits : Nat) → Bytes → Option Nat × Bytes
  | 0, _, _, bits, rest => (some bits, rest)
  | _ + 1, _, _, _, [] => (none, [])
  | following + 1, low, high, bits, b :: rest =>
    if low ≤ b ∧ b ≤ high then readTail following 0x80 0xbf (bits * 64 + b.toNat % 64) rest
    else (none, b :: rest)

/-- Reading a character's bytes never lengthens the text. -/
theorem length_readTail_le (following : Nat) (low high : UInt8) (bits : Nat) (bytes : Bytes) :
    (readTail following low high bits bytes).2.length ≤ bytes.length := by
  fun_induction readTail following low high bits bytes with
  | case1 => exact Nat.le_refl _
  | case2 => exact Nat.le_refl _
  | case3 _ _ _ _ _ _ _ ih => exact Nat.le_trans ih (Nat.le_succ _)
  | case4 => exact Nat.le_refl _

/-- The character that stands for a malformed run of bytes. -/
def replacement : Char := '�'

/-- The characters that `bytes` spell, malformed runs replaced. -/
def lenientChars : Bytes → List Char
  | [] => []
  | b :: rest =>
    if b < 0x80 then Char.ofNat b.toNat :: lenientChars rest
    else
      match Lead.ofByte? b with
      | none => replacement :: lenientChars rest
      | some lead =>
        let tail := readTail lead.following lead.low lead.high lead.bits rest
        (tail.1.map Char.ofNat).getD replacement :: lenientChars tail.2
termination_by bytes => bytes.length
decreasing_by
  · exact Nat.lt_succ_self _
  · exact Nat.lt_succ_self _
  · exact Nat.lt_succ_of_le (length_readTail_le ..)

/-- The text that `bytes` spell, malformed runs replaced. -/
def lenient (bytes : Bytes) : String :=
  String.ofList (lenientChars bytes)

end RoomForge.Text
