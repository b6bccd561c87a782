import RoomForge.Script.Fault
import RoomForge.Text.Blank
import RoomForge.Text.Decimal

set_option autoImplicit false

/-! # Reading tokens

The lexer (specification, section 4.1). `items` reads a script's text into tokens. Blanks and
comments separate tokens; after a malformed token reading goes on behind it, and only an
unterminated comment ends it early. Every step leaves a shorter text, which is why reading ends.

Going on behind a malformed token is not asked for by the section, and nothing but the first fault
is ever reported. Strings may hold any character, line breaks and the character zero among them.
-/

namespace RoomForge.Script

/-- The line after `c`, when `c` stands on `line`. -/
def lineAfter (c : Char) (line : Nat) : Nat :=
  if c = '\n' then line + 1 else line

/-! ## Blanks and comments -/

/-- Where the reader stands between two tokens. -/
inductive Trivia where
  /-- Outside of any comment. -/
  | blank
  /-- In a comment that ends with its line. -/
  | lineComment
  /-- In a bracketed comment opened on line `start`; `star` when the last character was a `*`. -/
  | blockComment (start : Nat) (star : Bool)
  deriving DecidableEq, Repr, Inhabited

/-- Skips blanks and comments: the text from the next token on, and its line. -/
def skipTrivia : Trivia → List Char → Nat → Except SyntaxError (List Char × Nat)
  | .blank, [], line => .ok ([], line)
  | .blank, '/' :: '/' :: rest, line => skipTrivia .lineComment rest line
  | .blank, '/' :: '*' :: rest, line => skipTrivia (.blockComment line false) rest line
  | .blank, c :: rest, line =>
      if Text.isBlank c then skipTrivia .blank rest (lineAfter c line)
      else .ok (c :: rest, line)
  | .lineComment, [], line => .ok ([], line)
  | .lineComment, c :: rest, line =>
      skipTrivia (if c = '\n' then .blank else .lineComment) rest (lineAfter c line)
  | .blockComment start _, [], _ => .error ⟨start, .unterminatedComment⟩
  | .blockComment start star, c :: rest, line =>
      skipTrivia (if star ∧ c = '/' then .blank else .blockComment start (c = '*')) rest
        (lineAfter c line)

/-- Skipping never lengthens the text. -/
theorem length_le_of_skipTrivia {state : Trivia} {cs rest : List Char} {line line' : Nat}
    (h : skipTrivia state cs line = .ok (rest, line')) : rest.length ≤ cs.length := by
  fun_induction skipTrivia state cs line <;> simp_all <;> omega

/-! ## Words, numbers and strings -/

/-- A character that a name may start with. -/
def isNameStart (c : Char) : Bool := c.isAlpha || c == '_'

/-- A character that a name may go on with. -/
def isNamePart (c : Char) : Bool := c.isAlphanum || c == '_'

/-- A word is a keyword or a name. -/
def wordToken (word : List Char) : Token :=
  let text := String.ofList word
  match Keyword.ofText? text with
  | some keyword => .keyword keyword
  | none => .ident text

/-- A number has to stay below `2 ^ 31`. -/
def numberToken (digits : List Char) : Except SyntaxFault Token :=
  match Text.decimalBelow? 0x80000000 digits with
  | some value => .ok (.number value)
  | none => .error (.numberTooLarge (String.ofList digits))

/-- The character that an escape stands for. -/
def unescape? : Char → Option Char
  | 'n' => some '\n'
  | '"' => some '"'
  | '\\' => some '\\'
  | _ => none

/-- One step of reading: what was read, and the text and line that follow it. -/
structure Reading where
  item : Item
  rest : List Char
  line : Nat

/-- Reads a string whose opening quote, on line `start`, is already read. `taken` holds the
characters so far, last first. -/
def readString (start : Nat) : List Char → Nat → List Char → Reading
  | [], line, _ => ⟨.error ⟨start, .unclosedString⟩, [], line⟩
  | '"' :: rest, line, taken => ⟨.ok ⟨.str (String.ofList taken.reverse), start⟩, rest, line⟩
  | ['\\'], line, _ => ⟨.error ⟨start, .unclosedString⟩, [], line⟩
  | '\\' :: c :: rest, line, taken =>
      match unescape? c with
      | some meant => readString start rest line (meant :: taken)
      | none => ⟨.error ⟨lineAfter c line, .unknownEscape c⟩, rest, lineAfter c line⟩
  | c :: rest, line, taken => readString start rest (lineAfter c line) (c :: taken)

/-- Reading a string never lengthens the text. -/
theorem length_readString_le (start : Nat) (cs : List Char) (line : Nat) (taken : List Char) :
    (readString start cs line taken).rest.length ≤ cs.length := by
  fun_induction readString start cs line taken <;> simp_all <;> omega

/-! ## Items -/

/-- Reads the token that starts with `c`. -/
def readItem (c : Char) (rest : List Char) (line : Nat) : Reading :=
  match Punct.read? (c :: rest) with
  | some (sign, rest) => ⟨.ok ⟨.punct sign, line⟩, rest, line⟩
  | none =>
    if c = '"' then readString line rest line []
    else if c.isDigit then
      let item := match numberToken (c :: rest.takeWhile Char.isDigit) with
        | .ok token => .ok ⟨token, line⟩
        | .error fault => .error ⟨line, fault⟩
      ⟨item, rest.dropWhile Char.isDigit, line⟩
    else if isNameStart c then
      ⟨.ok ⟨wordToken (c :: rest.takeWhile isNamePart), line⟩, rest.dropWhile isNamePart, line⟩
    else ⟨.error ⟨line, .unexpectedCharacter c⟩, rest, line⟩

/-- A token takes at least its first character. -/
theorem length_readItem_le (c : Char) (rest : List Char) (line : Nat) :
    (readItem c rest line).rest.length ≤ rest.length := by
  unfold readItem
  split
  · next h =>
    have := Punct.length_lt_of_read? h
    simp only [List.length_cons] at this
    exact Nat.le_of_lt_succ this
  · split
    · exact length_readString_le ..
    · split
      · exact (List.dropWhile_suffix _).length_le
      · split
        · exact (List.dropWhile_suffix _).length_le
        · exact Nat.le_refl _

/-- The items of the text `cs`, which starts on `line`, behind those in `taken` (last first). -/
def itemsFrom (cs : List Char) (line : Nat) (taken : List Item) : List Item :=
  match _skipped : skipTrivia .blank cs line with
  | .error e => (.error e :: taken).reverse
  | .ok ([], line) => (.ok ⟨.eof, line⟩ :: taken).reverse
  | .ok (c :: rest, line) =>
      let read := readItem c rest line
      itemsFrom read.rest read.line (read.item :: taken)
termination_by cs.length
decreasing_by
  have hskip := length_le_of_skipTrivia _skipped
  have hread := length_readItem_le c rest line
  simp only [List.length_cons] at hskip
  exact Nat.lt_of_le_of_lt hread hskip

/-- The tokens and faults of a script, in order. -/
def items (source : String) : List Item :=
  itemsFrom source.toList 1 []

end RoomForge.Script
