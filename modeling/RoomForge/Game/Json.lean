import RoomForge.Text.Decimal

set_option autoImplicit false

/-! # JSON

Descriptors are JSON texts (specification, section 6.3). A text is read into a tree that keeps what
a descriptor can depend on: members of objects in order, repeated ones included, whether a number is
written as an integer, and whether a string spells a text at all.

Values of numbers that are no integers are not kept, since no field of a descriptor holds one.
-/

namespace RoomForge.Game

/-- A JSON value. -/
inductive Json where
  | null
  | bool (value : Bool)
  /-- A number written as an integer, sign apart in at most 64 bits. -/
  | int (value : Int)
  /-- Any other number, minus zero included. -/
  | real
  /-- A string; none if its escapes leave half of a surrogate pair. -/
  | str (text : Option String)
  | arr (items : List Json)
  | obj (members : List (Option String × Json))
  deriving Repr, Inhabited

namespace Json

/-! ## Strings -/

/-- The value of a hexadecimal digit. -/
def hexValue? (c : Char) : Option Nat :=
  if c.isDigit then some (c.toNat - '0'.toNat)
  else if 'a' ≤ c ∧ c ≤ 'f' then some (c.toNat - 'a'.toNat + 10)
  else if 'A' ≤ c ∧ c ≤ 'F' then some (c.toNat - 'A'.toNat + 10)
  else none

/-- The number that four hexadecimal digits spell. -/
def unitValue? (a b c d : Char) : Option Nat := do
  let a ← hexValue? a
  let b ← hexValue? b
  let c ← hexValue? c
  let d ← hexValue? d
  return ((a * 16 + b) * 16 + c) * 16 + d

/-- The first half of a surrogate pair. -/
def isHigh (unit : Nat) : Bool := 0xd800 ≤ unit && unit < 0xdc00

/-- The second half of a surrogate pair. -/
def isLow (unit : Nat) : Bool := 0xdc00 ≤ unit && unit < 0xe000

/-- The character that a surrogate pair stands for. -/
def pairChar (high low : Nat) : Char :=
  Char.ofNat (0x10000 + (high - 0xd800) * 0x400 + (low - 0xdc00))

/-- What a string is written with: characters and halves of surrogate pairs. -/
inductive Piece where
  | char (value : Char)
  | half (unit : Nat)

/-- The piece that a numbered escape stands for. -/
def Piece.ofUnit (unit : Nat) : Piece :=
  if isHigh unit || isLow unit then .half unit else .char (Char.ofNat unit)

/-- The text that pieces spell, behind the characters in `taken` (last first). A half that has no
other half beside it spells none. -/
def spell? : List Piece → (taken : List Char) → Option String
  | [], taken => some (String.ofList taken.reverse)
  | .char c :: rest, taken => spell? rest (c :: taken)
  | .half high :: .half low :: rest, taken =>
    if isHigh high && isLow low then spell? rest (pairChar high low :: taken) else none
  | .half _ :: _, _ => none

/-- The character of an escape other than a numbered one. -/
def escapeChar? : Char → Option Char
  | '"' => some '"'
  | '\\' => some '\\'
  | '/' => some '/'
  | 'b' => some '\x08'
  | 'f' => some '\x0c'
  | 'n' => some '\n'
  | 'r' => some '\r'
  | 't' => some '\t'
  | _ => none

/-- Reads the pieces of a string that are left, behind those in `taken` (last first), and its
closing quote. -/
def readPieces? : List Char → (taken : List Piece) → Option (List Piece × List Char)
  | '"' :: rest, taken => some (taken.reverse, rest)
  | '\\' :: 'u' :: a :: b :: c :: d :: rest, taken =>
    match unitValue? a b c d with
    | some unit => readPieces? rest (.ofUnit unit :: taken)
    | none => none
  | '\\' :: c :: rest, taken =>
    match escapeChar? c with
    | some meant => readPieces? rest (.char meant :: taken)
    | none => none
  | c :: rest, taken =>
    if c.toNat < 0x20 ∨ c = '\\' then none else readPieces? rest (.char c :: taken)
  | [], _ => none

/-- Reads a string behind its opening quote. -/
def readString? (cs : List Char) : Option (Option String × List Char) := do
  let (pieces, rest) ← readPieces? cs []
  return (spell? pieces [], rest)

/-! ## Numbers -/

/-- Reads at least one digit. -/
def readDigits? (cs : List Char) : Option (List Char × List Char) :=
  match cs.takeWhile Char.isDigit with
  | [] => none
  | digits => some (digits, cs.dropWhile Char.isDigit)

/-- Reads the exponent of a number behind its mark. -/
def readExponent? (cs : List Char) : Option (List Char) :=
  let cs := match cs with
    | '+' :: rest | '-' :: rest => rest
    | cs => cs
  (readDigits? cs).map (·.2)

/-- Reads what follows the integer digits of a number: whether there is something, and the rest. -/
def readFraction? (cs : List Char) : Option (Bool × List Char) := do
  match cs with
  | '.' :: rest =>
    let (_, rest) ← readDigits? rest
    match rest with
    | 'e' :: more | 'E' :: more => return (true, ← readExponent? more)
    | rest => return (true, rest)
  | 'e' :: more | 'E' :: more => return (true, ← readExponent? more)
  | rest => return (false, rest)

/-- Reads a number. A zero in front of other digits is not allowed. -/
def readNumber? (cs : List Char) : Option (Json × List Char) := do
  let (negative, cs) := match cs with
    | '-' :: rest => (true, rest)
    | cs => (false, cs)
  let (digits, rest) ← readDigits? cs
  if digits.head? == some '0' && digits.length != 1 then none
  let (fraction, rest) ← readFraction? rest
  match Text.decimalBelow? 0x10000000000000000 digits with
  | some value =>
    if fraction || (negative && value == 0) then return (.real, rest)
    else return (.int (if negative then -(value : Int) else value), rest)
  | none => return (.real, rest)

/-! ## Words -/

/-- The words of a text: its marks, and the values that hold no others. -/
inductive Word where
  | openArray
  | closeArray
  | openObject
  | closeObject
  | comma
  | colon
  | value (json : Json)

/-- The blanks between the words of a text. -/
def isBlank (c : Char) : Bool :=
  c == ' ' || c == '\n' || c == '\t' || c == '\r'

/-- Reads `letters` off the front of a text. -/
def readLetters? (letters cs : List Char) : Option (List Char) :=
  if letters.isPrefixOf cs then some (cs.drop letters.length) else none

/-- Reads a word. -/
def readWord? : List Char → Option (Word × List Char)
  | '[' :: rest => some (.openArray, rest)
  | ']' :: rest => some (.closeArray, rest)
  | '\x7b' :: rest => some (.openObject, rest)
  | '\x7d' :: rest => some (.closeObject, rest)
  | ',' :: rest => some (.comma, rest)
  | ':' :: rest => some (.colon, rest)
  | '"' :: rest => (readString? rest).map fun (text, rest) => (.value (.str text), rest)
  | 't' :: rest => (readLetters? ['r', 'u', 'e'] rest).map (.value (.bool true), ·)
  | 'f' :: rest => (readLetters? ['a', 'l', 's', 'e'] rest).map (.value (.bool false), ·)
  | 'n' :: rest => (readLetters? ['u', 'l', 'l'] rest).map (.value .null, ·)
  | cs => (readNumber? cs).map fun (json, rest) => (.value json, rest)

/-- The words of a text that are left, behind those in `taken` (last first). A word has a character
at least, so `fuel` bounds the length of the text. -/
def readWords? : (fuel : Nat) → List Char → (taken : List Word) → Option (List Word)
  | fuel, cs, taken =>
    match cs.dropWhile isBlank with
    | [] => some taken.reverse
    | cs =>
      match fuel with
      | 0 => none
      | fuel + 1 =>
        match readWord? cs with
        | some (word, rest) => readWords? fuel rest (word :: taken)
        | none => none

/-- The words of a text. -/
def words? (text : String) : Option (List Word) :=
  let cs := text.toList
  readWords? cs.length cs []

/-! ## Values

A value is read word by word. What is open around the next word is a list, so a text may nest its
values to any depth.
-/

/-- A place for a value: behind the items of an array or the members of an object, last first. -/
inductive Place where
  | item (before : List Json)
  | member (before : List (Option String × Json)) (key : Option String)

/-- How far a text has been read. `around` lists the places that are open, innermost first. -/
inductive Progress where
  /-- A value comes next. -/
  | value (around : List Place)
  /-- The first item of an array comes next, or its end. -/
  | firstItem (around : List Place)
  /-- The first key of an object comes next, or its end. -/
  | firstKey (around : List Place)
  /-- Another key of an object comes next. -/
  | nextKey (before : List (Option String × Json)) (around : List Place)
  /-- The colon behind a key comes next. -/
  | colon (before : List (Option String × Json)) (key : Option String) (around : List Place)
  /-- A value is complete. -/
  | done (json : Json) (around : List Place)

/-- Begins a value with a word. -/
def begin? (around : List Place) : Word → Option Progress
  | .openArray => some (.firstItem around)
  | .openObject => some (.firstKey around)
  | .value json => some (.done json around)
  | _ => none

/-- Takes the next word. -/
def Progress.next? : Progress → Word → Option Progress
  | .value around, word => begin? around word
  | .firstItem around, .closeArray => some (.done (.arr []) around)
  | .firstItem around, word => begin? (.item [] :: around) word
  | .firstKey around, .closeObject => some (.done (.obj []) around)
  | .firstKey around, .value (.str key) => some (.colon [] key around)
  | .nextKey before around, .value (.str key) => some (.colon before key around)
  | .colon before key around, .colon => some (.value (.member before key :: around))
  | .done json (.item before :: around), .comma => some (.value (.item (json :: before) :: around))
  | .done json (.item before :: around), .closeArray =>
    some (.done (.arr (json :: before).reverse) around)
  | .done json (.member before key :: around), .comma =>
    some (.nextKey ((key, json) :: before) around)
  | .done json (.member before key :: around), .closeObject =>
    some (.done (.obj ((key, json) :: before).reverse) around)
  | _, _ => none

/-- The value that a text holds, and nothing else beside blanks. -/
def parse? (text : String) : Option Json := do
  match ← (← words? text).foldlM Progress.next? (.value []) with
  | .done json [] => return json
  | _ => none

end Json

end RoomForge.Game
