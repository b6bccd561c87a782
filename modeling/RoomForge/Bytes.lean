set_option autoImplicit false

/-! # Bytes

Numbers as bytes of a fixed count. Words of the game file and operands of code are little-endian,
the sizes of blocks are big-endian (specification, sections 4.3 and 4.5); both come from one
expansion in base 256. `length_little` and `length_big` give the counts of bytes, on which all
layouts rely.
-/

namespace RoomForge

/-- A row of bytes. -/
abbrev Bytes := List UInt8

namespace Bytes

/-- The `width` lowest digits of `n` in base 256, lowest first. -/
def little : (width : Nat) → (n : Nat) → Bytes
  | 0, _ => []
  | width + 1, n => UInt8.ofNat n :: little width (n / 256)

/-- The `width` lowest digits of `n` in base 256, highest first. -/
def big (width n : Nat) : Bytes :=
  (little width n).reverse

/-- The number whose digits in base 256 are `bytes`, lowest first. -/
def ofLittle : Bytes → Nat
  | [] => 0
  | b :: rest => b.toNat + 256 * ofLittle rest

/-- The number whose digits in base 256 are `bytes`, highest first. -/
def ofBig (bytes : Bytes) : Nat :=
  ofLittle bytes.reverse

/-- An unsigned word, lowest byte first. -/
def word (value : UInt16) : Bytes :=
  little 2 value.toNat

/-- A signed word, lowest byte first. -/
def signedWord (value : Int16) : Bytes :=
  word value.toUInt16

@[simp] theorem length_little (width n : Nat) : (little width n).length = width := by
  induction width generalizing n with
  | zero => rfl
  | succ width ih => simp only [little, List.length_cons, ih]

@[simp] theorem length_big (width n : Nat) : (big width n).length = width := by
  simp [big]

@[simp] theorem length_word (value : UInt16) : (word value).length = 2 := by
  simp [word]

@[simp] theorem length_signedWord (value : Int16) : (signedWord value).length = 2 := by
  simp [signedWord]

end Bytes

end RoomForge
