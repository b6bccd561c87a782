import RoomForge.Text.Quoted

set_option autoImplicit false

/-! # Tokens of the script language

A script is read as words, numbers, quoted strings, keywords and punctuation (specification, section
4.1). `Token.label` is the form in which a message names a token it did not expect.
-/

namespace RoomForge.Script

/-- Reserved words. -/
inductive Keyword where
  | functionWord
  | inlineWord
  | constWord
  | varWord
  | ifWord
  | elseWord
  | whileWord
  | forWord
  | breakWord
  | continueWord
  | returnWord
  deriving DecidableEq, Repr, Inhabited

namespace Keyword

/-- Every reserved word. -/
def all : List Keyword :=
  [functionWord, inlineWord, constWord, varWord, ifWord, elseWord, whileWord, forWord, breakWord,
    continueWord, returnWord]

/-- The word as it is written in a script. -/
def text : Keyword → String
  | functionWord => "function"
  | inlineWord => "inline"
  | constWord => "const"
  | varWord => "var"
  | ifWord => "if"
  | elseWord => "else"
  | whileWord => "while"
  | forWord => "for"
  | breakWord => "break"
  | continueWord => "continue"
  | returnWord => "return"

/-- The word's name in messages. -/
def label : Keyword → String
  | functionWord => "Function"
  | inlineWord => "Inline"
  | constWord => "Const"
  | varWord => "Var"
  | ifWord => "If"
  | elseWord => "Else"
  | whileWord => "While"
  | forWord => "For"
  | breakWord => "Break"
  | continueWord => "Continue"
  | returnWord => "Return"

/-- The keyword written as `word`, if it is one. -/
def ofText? (word : String) : Option Keyword :=
  all.find? fun keyword => keyword.text == word

theorem mem_all (keyword : Keyword) : keyword ∈ all := by
  cases keyword <;> decide

@[simp] theorem ofText?_text (keyword : Keyword) : ofText? keyword.text = some keyword := by
  cases keyword <;> decide

theorem text_of_ofText? {word : String} {keyword : Keyword}
    (h : ofText? word = some keyword) : keyword.text = word := by
  simpa using List.find?_some h

end Keyword

/-- Brackets, separators and operators. -/
inductive Punct where
  | lparen
  | rparen
  | lbrace
  | rbrace
  | comma
  | semicolon
  | assign
  | plus
  | minus
  | star
  | slash
  | percent
  | eqEq
  | notEq
  | lt
  | le
  | gt
  | ge
  | andAnd
  | orOr
  | bang
  deriving DecidableEq, Repr, Inhabited

namespace Punct

/-- The sign as it is written in a script. -/
def text : Punct → String
  | lparen => "("
  | rparen => ")"
  | lbrace => "\x7b"
  | rbrace => "\x7d"
  | comma => ","
  | semicolon => ";"
  | assign => "="
  | plus => "+"
  | minus => "-"
  | star => "*"
  | slash => "/"
  | percent => "%"
  | eqEq => "=="
  | notEq => "!="
  | lt => "<"
  | le => "<="
  | gt => ">"
  | ge => ">="
  | andAnd => "&&"
  | orOr => "||"
  | bang => "!"

/-- The sign's name in messages. -/
def label : Punct → String
  | lparen => "LParen"
  | rparen => "RParen"
  | lbrace => "LBrace"
  | rbrace => "RBrace"
  | comma => "Comma"
  | semicolon => "Semicolon"
  | assign => "Assign"
  | plus => "Plus"
  | minus => "Minus"
  | star => "Star"
  | slash => "Slash"
  | percent => "Percent"
  | eqEq => "EqEq"
  | notEq => "NotEq"
  | lt => "Lt"
  | le => "Le"
  | gt => "Gt"
  | ge => "Ge"
  | andAnd => "AndAnd"
  | orOr => "OrOr"
  | bang => "Bang"

/-- Every sign, those of two characters first. -/
def all : List Punct :=
  [eqEq, notEq, le, ge, andAnd, orOr, lparen, rparen, lbrace, rbrace, comma, semicolon, assign,
    plus, minus, star, slash, percent, lt, gt, bang]

/-- The longest sign at the head of `cs`, with what follows it. -/
def read? (cs : List Char) : Option (Punct × List Char) :=
  (all.find? fun sign => sign.text.toList.isPrefixOf cs).map fun sign =>
    (sign, cs.drop sign.text.toList.length)

theorem mem_all (sign : Punct) : sign ∈ all := by
  cases sign <;> decide

theorem text_ne_nil (sign : Punct) : sign.text.toList ≠ [] := by
  cases sign <;> decide

/-- A sign is read off the front of the text and nothing else is. -/
theorem eq_text_append_of_read? {cs rest : List Char} {sign : Punct}
    (h : read? cs = some (sign, rest)) : cs = sign.text.toList ++ rest := by
  unfold read? at h
  obtain ⟨found, hfound, hpair⟩ := Option.map_eq_some_iff.mp h
  obtain ⟨rfl, rfl⟩ := Prod.mk.inj hpair
  have hprefix := List.find?_some hfound
  obtain ⟨tail, rfl⟩ := List.isPrefixOf_iff_prefix.mp hprefix
  rw [List.drop_left]

/-- Reading a sign shortens the text. -/
theorem length_lt_of_read? {cs rest : List Char} {sign : Punct}
    (h : read? cs = some (sign, rest)) : rest.length < cs.length := by
  have hpos := List.length_pos_iff.mpr (text_ne_nil sign)
  rw [eq_text_append_of_read? h, List.length_append]
  omega

end Punct

/-- One token of a script. -/
inductive Token where
  /-- A name that is no reserved word. -/
  | ident (name : String)
  /-- A decimal number below `2 ^ 31`. -/
  | number (value : Nat)
  /-- The text of a quoted string, escapes resolved. -/
  | str (text : String)
  | keyword (word : Keyword)
  | punct (sign : Punct)
  /-- The end of the script. -/
  | eof
  deriving DecidableEq, Repr, Inhabited

/-- The form in which a message names a token. -/
def Token.label : Token → String
  | .ident name => "Ident(" ++ Text.quoted name ++ ")"
  | .number value => "Number(" ++ toString value ++ ")"
  | .str text => "Str(" ++ Text.quoted text ++ ")"
  | .keyword word => word.label
  | .punct sign => sign.label
  | .eof => "Eof"

/-- A token and the line of its first character. -/
structure Lexeme where
  token : Token
  line : Nat
  deriving DecidableEq, Repr, Inhabited

end RoomForge.Script
