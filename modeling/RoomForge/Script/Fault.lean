import RoomForge.Script.Token

set_option autoImplicit false

/-! # What can be wrong with a script's text

A `SyntaxError` is a line and the fault found there; `SyntaxFault.message` words the fault
(specification, sections 4.1 and 7). The section fixes no wording. `Proofs.FirstOffense` says which
line a refused text is refused at.
-/

namespace RoomForge.Script

/-- What the grammar asks for where something else stands. -/
inductive Wanted where
  /-- A constant or a function, at the top level. -/
  | declaration
  | constantName
  | integer
  | functionWord
  | functionName
  /-- The closing parenthesis of a function's head, which has no parameters. -/
  | headEnd
  | variableName
  | expression
  /-- What follows an argument of a call. -/
  | argumentEnd
  | sign (p : Punct)
  deriving DecidableEq, Repr, Inhabited

/-- The wording of what is wanted. -/
def Wanted.text : Wanted → String
  | .declaration => "`const` or `function`"
  | .constantName => "constant name"
  | .integer => "integer constant"
  | .functionWord => "`function`"
  | .functionName => "function name"
  | .headEnd => "`)`, functions take no parameters"
  | .variableName => "variable name"
  | .expression => "expression"
  | .argumentEnd => "`,` or `)`"
  | .sign p => "`" ++ p.text ++ "`"

/-- The ways in which a script's text can be malformed. -/
inductive SyntaxFault where
  | unterminatedComment
  | unexpectedCharacter (c : Char)
  /-- A number of `2 ^ 31` or more, with its digits as written. -/
  | numberTooLarge (digits : String)
  /-- A backslash before a character that has no escape. -/
  | unknownEscape (c : Char)
  /-- A string without its closing quote. -/
  | unclosedString
  /-- A token where the grammar asks for something else. -/
  | unexpected (wanted : Wanted) (found : Token)
  /-- The script ends inside a block. -/
  | unclosedBlock
  | nestedFunction
  /-- An assignment to something that is not a name. -/
  | assignmentTarget
  /-- The nesting of the script is deeper than the reader was prepared for. -/
  | tooDeep
  deriving DecidableEq, Repr, Inhabited

/-- The wording of a fault. -/
def SyntaxFault.message : SyntaxFault → String
  | .unterminatedComment => "unterminated comment"
  | .unexpectedCharacter c => "unexpected character `" ++ c.toString ++ "`"
  | .numberTooLarge digits => "number too large: " ++ digits
  | .unknownEscape c => "unknown escape sequence \\" ++ c.toString
  | .unclosedString => "no closing \" found"
  | .unexpected wanted found => "expected " ++ wanted.text ++ ", found " ++ found.label
  | .unclosedBlock => "unexpected end of script, missing `\x7d`"
  | .nestedFunction => "functions can't be nested"
  | .assignmentTarget => "invalid assignment target"
  | .tooDeep => "nested too deeply"

/-- A fault in a script's text and the line it is reported at. -/
structure SyntaxError where
  line : Nat
  fault : SyntaxFault
  deriving DecidableEq, Repr, Inhabited

/-- The layout of a message about one line. -/
def lineMessage (line : Nat) (message : String) : String :=
  s!"line {line}: {message}"

/-- The full wording of a syntax error. -/
def SyntaxError.message (e : SyntaxError) : String :=
  lineMessage e.line e.fault.message

/-- What reading a script's text yields at one place: a token, or a fault. -/
abbrev Item := Except SyntaxError Lexeme

end RoomForge.Script
