import RoomForge.Text.Unprintable

set_option autoImplicit false

/-! # Quoted text

How a message shows a piece of script text: between double quotes, with the characters that would be
lost or mistaken written as escapes. Messages are the only place where this form occurs; scripts
have escapes of their own (`Script.Lexer`).
-/

namespace RoomForge.Text

/-- The written form of one character inside quotes. An unprintable character without an escape of
its own is shown by its hexadecimal number. -/
def escaped (c : Char) : List Char :=
  if c = '"' then ['\\', '"']
  else if c = '\\' then ['\\', '\\']
  else if c = '\n' then ['\\', 'n']
  else if c = '\r' then ['\\', 'r']
  else if c = '\t' then ['\\', 't']
  else if c = Char.ofNat 0 then ['\\', '0']
  else if isUnprintable c then
    '\\' :: 'u' :: '\x7b' :: (Nat.toDigits 16 c.toNat ++ ['\x7d'])
  else [c]

/-- A text between double quotes, as messages show it. -/
def quoted (s : String) : String :=
  String.ofList ('"' :: (s.toList.flatMap escaped ++ ['"']))

/-- Printable ASCII other than the quote and the backslash stands for itself. -/
theorem escaped_of_plain {c : Char} (low : 0x20 ≤ c.toNat) (high : c.toNat < 0x7f)
    (quote : c ≠ '"') (slash : c ≠ '\\') : escaped c = [c] := by
  have plain : isUnprintable c = false := by simp [isUnprintable, low, high]
  have newline : c ≠ '\n' := by rintro rfl; simp at low
  have feed : c ≠ '\r' := by rintro rfl; simp at low
  have tab : c ≠ '\t' := by rintro rfl; simp at low
  have nul : c ≠ Char.ofNat 0 := by rintro rfl; simp at low
  simp [escaped, quote, slash, newline, feed, tab, nul, plain]

end RoomForge.Text
