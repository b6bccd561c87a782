set_option autoImplicit false

/-! # Decimal digits

The value of a row of decimal digits. A row may be long and its value is often wanted only if it is
small, so `decimalBelow?` stops at the first digit that takes the value past a bound;
`decimalBelow?_eq_some_iff` says that it finds the value exactly if it is below the bound.
-/

namespace RoomForge.Text

/-- The value of a row of digits that goes on with the digit `c` behind the value `value`. -/
def addDigit (value : Nat) (c : Char) : Nat :=
  10 * value + (c.toNat - '0'.toNat)

/-- The value of a row of decimal digits. -/
def decimalValue (digits : List Char) : Nat :=
  digits.foldl addDigit 0

/-- Adds a digit to a value that has to stay below `bound`. -/
def addDigitBelow? (bound value : Nat) (c : Char) : Option Nat :=
  if addDigit value c < bound then some (addDigit value c) else none

/-- The value of a row of decimal digits, if it is below `bound`. -/
def decimalBelow? (bound : Nat) (digits : List Char) : Option Nat :=
  digits.foldlM (addDigitBelow? bound) 0

/-- More digits never lessen a value. -/
theorem le_foldl_addDigit (digits : List Char) (value : Nat) :
    value ≤ digits.foldl addDigit value := by
  induction digits generalizing value with
  | nil => exact Nat.le_refl value
  | cons c rest ih =>
    have := ih (addDigit value c)
    rw [List.foldl_cons]
    unfold addDigit at this ⊢
    omega

/-- Digits behind a value below the bound give the whole value exactly if it stays below. -/
theorem foldlM_addDigitBelow?_eq_some_iff {bound value whole : Nat} (digits : List Char)
    (h : value < bound) :
    digits.foldlM (addDigitBelow? bound) value = some whole ↔
      digits.foldl addDigit value = whole ∧ whole < bound := by
  induction digits generalizing value with
  | nil =>
    simp only [List.foldlM_nil, List.foldl_nil, Option.pure_def, Option.some.injEq]
    exact ⟨fun heq => ⟨heq, heq ▸ h⟩, And.left⟩
  | cons c rest ih =>
    rw [List.foldlM_cons, List.foldl_cons, addDigitBelow?]
    by_cases hnext : addDigit value c < bound
    · rw [if_pos hnext]
      exact ih hnext
    · rw [if_neg hnext]
      have := le_foldl_addDigit rest (addDigit value c)
      refine ⟨fun heq => by simp at heq, fun ⟨heq, hwhole⟩ => ?_⟩
      omega

/-- A bounded value is the value, below the bound. -/
theorem decimalBelow?_eq_some_iff {bound : Nat} (hbound : 0 < bound) {digits : List Char}
    {value : Nat} :
    decimalBelow? bound digits = some value ↔ decimalValue digits = value ∧ value < bound :=
  foldlM_addDigitBelow?_eq_some_iff digits hbound

end RoomForge.Text
