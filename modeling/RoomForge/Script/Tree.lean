set_option autoImplicit false

/-! # Script trees

What a script says once its text is read (specification, sections 3 and 4.1): constants, and
functions whose bodies are statements over expressions. Statements carry the line on which they
start; expressions carry none, so a fault in one is reported with the line of a statement.
-/

namespace RoomForge.Script

/-- A named integer. -/
structure Constant where
  name : String
  value : Int
  deriving DecidableEq, Repr, Inhabited

/-- Operators with two operands. -/
inductive BinOp where
  | add
  | sub
  | mul
  | div
  | mod
  | eq
  | ne
  | lt
  | le
  | gt
  | ge
  | and
  | or
  deriving DecidableEq, Repr, Inhabited

/-- Operators with one operand. -/
inductive UnOp where
  | neg
  | not
  deriving DecidableEq, Repr, Inhabited

/-- Expressions. -/
inductive Expr where
  | int (value : Int)
  | str (text : String)
  | ident (name : String)
  /-- A call of a script function, an inlined one or a function of the engine. -/
  | call (name : String) (args : List Expr)
  | unary (op : UnOp) (operand : Expr)
  | binary (op : BinOp) (left right : Expr)
  deriving Repr, Inhabited

/-- Statements, each with the line on which it starts. -/
inductive Stmt where
  | block (line : Nat) (body : List Stmt)
  /-- A local variable, zero unless an initial value is given. -/
  | var (line : Nat) (name : String) (init : Option Expr)
  | const (line : Nat) (name : String) (value : Int)
  | assign (line : Nat) (name : String) (value : Expr)
  /-- An expression evaluated for its effect. -/
  | eval (line : Nat) (expr : Expr)
  | ifElse (line : Nat) (cond : Expr) (yes : Stmt) (no : Option Stmt)
  | whileLoop (line : Nat) (cond : Expr) (body : Stmt)
  | forLoop (line : Nat) (init : Option Stmt) (cond : Option Expr) (step : Option Stmt)
      (body : Stmt)
  | breakLoop (line : Nat)
  | continueLoop (line : Nat)
  | leave (line : Nat)
  deriving Repr, Inhabited

/-- The line on which a statement starts. -/
def Stmt.line : Stmt → Nat
  | .block line .. | .var line .. | .const line .. | .assign line .. | .eval line ..
  | .ifElse line .. | .whileLoop line .. | .forLoop line .. | .breakLoop line
  | .continueLoop line | .leave line => line

/-- How a function is compiled. -/
inductive RoutineKind where
  /-- On its own, to be started by its number. -/
  | normal
  /-- Never on its own: its body is expanded at every call. -/
  | inlined
  deriving DecidableEq, Repr, Inhabited

/-- A script function, from its text until it is compiled. -/
structure Routine where
  name : String
  kind : RoutineKind
  body : Stmt
  line : Nat
  /-- The number by which other functions start it. -/
  number : Option UInt16 := none
  /-- Its code, once compiled. -/
  code : Option (List UInt8) := none
  deriving Repr, Inhabited

namespace Routine

/-- The empty function that stands in where a room lacks one it needs. -/
def stub (name : String) : Routine :=
  { name, kind := .normal, body := .block 0 [], line := 0 }

/-- Whether calls expand the function's body. -/
def isInlined (routine : Routine) : Bool :=
  routine.kind == .inlined

end Routine

/-- The content of one script text, in the order of the text. -/
structure Declarations where
  constants : List Constant := []
  routines : List Routine := []
  deriving Repr, Inhabited

end RoomForge.Script
