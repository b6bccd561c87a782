import RoomForge.Script.Lexer
import RoomForge.Script.Tree

set_option autoImplicit false

/-! # From tokens to trees

The parser (specification, section 4.1). A reader by recursive descent with one token of lookahead.
Each function takes the items that are left and answers with what it read and the items behind it,
or with the first fault it met.

The recursion is bounded by a fuel argument. `parse` supplies enough for every text, so the fault of
running out of it never occurs; `Proofs.Progress` has the measure behind this. That the readers take
exactly what the grammar of the section derives is shown in `Proofs.Parsing`.
-/

namespace RoomForge.Script

/-- What was read of a script, and the items behind it. -/
abbrev Parsed (α : Type) := α × List Item

/-! ## Looking at the next token -/

/-- The next token; behind the last item there is nothing but the end. -/
def peek : List Item → Except SyntaxError Lexeme
  | [] => .ok ⟨.eof, 1⟩
  | item :: _ => item

/-- The fault of finding `next` where the grammar asks for `wanted`. -/
def unexpected {α : Type} (wanted : Wanted) (next : Lexeme) : Except SyntaxError (Parsed α) :=
  .error ⟨next.line, .unexpected wanted next.token⟩

/-- Reads the token `token`. -/
def expect (token : Token) (wanted : Wanted) (items : List Item) :
    Except SyntaxError (Parsed Unit) := do
  let next ← peek items
  if next.token = token then .ok ((), items.tail) else unexpected wanted next

/-- Reads the sign `sign`. -/
def expectSign (sign : Punct) (items : List Item) : Except SyntaxError (Parsed Unit) :=
  expect (.punct sign) (.sign sign) items

/-- Reads a name. -/
def readName (wanted : Wanted) (items : List Item) : Except SyntaxError (Parsed String) := do
  let next ← peek items
  match next.token with
  | .ident name => .ok (name, items.tail)
  | _ => unexpected wanted next

/-! ## Expressions -/

/-- The operator that a sign stands for between two operands. -/
def BinOp.ofSign? : Punct → Option BinOp
  | .orOr => some .or
  | .andAnd => some .and
  | .eqEq => some .eq
  | .notEq => some .ne
  | .lt => some .lt
  | .le => some .le
  | .gt => some .gt
  | .ge => some .ge
  | .plus => some .add
  | .minus => some .sub
  | .star => some .mul
  | .slash => some .div
  | .percent => some .mod
  | _ => none

/-- The operator that a token stands for between two operands. -/
def BinOp.ofToken? : Token → Option BinOp
  | .punct sign => ofSign? sign
  | _ => none

/-- How tightly an operator binds: a higher level binds tighter. -/
def BinOp.level : BinOp → Nat
  | .or => 1
  | .and => 2
  | .eq | .ne => 3
  | .lt | .le | .gt | .ge => 4
  | .add | .sub => 5
  | .mul | .div | .mod => 6

/-- The operator that a token stands for before its operand. -/
def UnOp.ofToken? : Token → Option UnOp
  | .punct .minus => some .neg
  | .punct .bang => some .not
  | _ => none

/-- The fault of running out of fuel, which `parse` never meets. -/
def outOfFuel {α : Type} (items : List Item) : Except SyntaxError (Parsed α) := do
  let next ← peek items
  .error ⟨next.line, .tooDeep⟩

mutual

/-- Reads an expression whose operators all have at least the level `level`. -/
def readBinary : Nat → Nat → List Item → Except SyntaxError (Parsed Expr)
  | 0, _, items => outOfFuel items
  | fuel + 1, level, items => do
    let (left, items) ← readUnary fuel items
    readOperators fuel level left items

/-- Reads the operators of at least the level `level` behind `left`, with their right operands;
operators of one level associate to the left. -/
def readOperators : Nat → Nat → Expr → List Item → Except SyntaxError (Parsed Expr)
  | 0, _, _, items => outOfFuel items
  | fuel + 1, level, left, items => do
    let next ← peek items
    match BinOp.ofToken? next.token with
    | none => .ok (left, items)
    | some op =>
      if op.level < level then .ok (left, items)
      else
        let (right, items) ← readBinary fuel (op.level + 1) items.tail
        readOperators fuel level (.binary op left right) items

/-- Reads an operand with the operators before it. A minus sign right before a number makes one
negative literal. -/
def readUnary : Nat → List Item → Except SyntaxError (Parsed Expr)
  | 0, items => outOfFuel items
  | fuel + 1, items => do
    let next ← peek items
    match UnOp.ofToken? next.token with
    | none => readPrimary fuel items
    | some op =>
      let behind := items.tail
      match op, (← peek behind).token with
      | .neg, .number value => .ok (.int (-(value : Int)), behind.tail)
      | op, _ =>
        let (operand, items) ← readUnary fuel behind
        .ok (.unary op operand, items)

/-- Reads a literal, a name, a call or a parenthesised expression. -/
def readPrimary : Nat → List Item → Except SyntaxError (Parsed Expr)
  | 0, items => outOfFuel items
  | fuel + 1, items => do
    let next ← peek items
    match next.token with
    | .number value => .ok (.int value, items.tail)
    | .str text => .ok (.str text, items.tail)
    | .ident name =>
      let behind := items.tail
      if (← peek behind).token = .punct .lparen then
        if (← peek behind.tail).token = .punct .rparen then
          .ok (.call name [], behind.tail.tail)
        else
          let (args, items) ← readArgs fuel [] behind.tail
          .ok (.call name args, items)
      else .ok (.ident name, behind)
    | .punct .lparen =>
      let (inner, items) ← readBinary fuel 1 items.tail
      let ((), items) ← expectSign .rparen items
      .ok (inner, items)
    | _ => unexpected .expression next

/-- Reads the arguments of a call that are left, behind those in `taken` (last first), and the
closing parenthesis. -/
def readArgs : Nat → List Expr → List Item → Except SyntaxError (Parsed (List Expr))
  | 0, _, items => outOfFuel items
  | fuel + 1, taken, items => do
    let (arg, items) ← readBinary fuel 1 items
    let next ← peek items
    match next.token with
    | .punct .comma => readArgs fuel (arg :: taken) items.tail
    | .punct .rparen => .ok ((arg :: taken).reverse, items.tail)
    | _ => unexpected .argumentEnd next

end

/-- Reads an expression. -/
def readExpr (fuel : Nat) (items : List Item) : Except SyntaxError (Parsed Expr) :=
  readBinary fuel 1 items

/-! ## Statements -/

/-- Reads a constant's name and value, behind its keyword. -/
def readConstant (items : List Item) : Except SyntaxError (Parsed Constant) := do
  let (name, items) ← readName .constantName items
  let ((), items) ← expectSign .assign items
  let negative := (← peek items).token = .punct .minus
  let items := if negative then items.tail else items
  let next ← peek items
  match next.token with
  | .number value =>
    let ((), items) ← expectSign .semicolon items.tail
    .ok (⟨name, if negative then -(value : Int) else value⟩, items)
  | _ => unexpected .integer next

/-- Reads a parenthesised condition. -/
def readCondition (fuel : Nat) (items : List Item) : Except SyntaxError (Parsed Expr) := do
  let ((), items) ← expectSign .lparen items
  let (cond, items) ← readExpr fuel items
  let ((), items) ← expectSign .rparen items
  .ok (cond, items)

/-- Reads a variable, an assignment or an expression, without a semicolon. -/
def readSimple (fuel : Nat) (items : List Item) : Except SyntaxError (Parsed Stmt) := do
  let first ← peek items
  if first.token = .keyword .varWord then
    let (name, items) ← readName .variableName items.tail
    if (← peek items).token = .punct .assign then
      let (init, items) ← readExpr fuel items.tail
      .ok (.var first.line name (some init), items)
    else .ok (.var first.line name none, items)
  else
    let (expr, items) ← readExpr fuel items
    let next ← peek items
    if next.token = .punct .assign then
      match expr with
      | .ident name =>
        let (value, items) ← readExpr fuel items.tail
        .ok (.assign first.line name value, items)
      | _ => .error ⟨next.line, .assignmentTarget⟩
    else .ok (.eval first.line expr, items)

/-- Reads what `read` reads, unless the next token is `stop`. -/
def readUnless {α : Type} (stop : Token) (read : List Item → Except SyntaxError (Parsed α))
    (items : List Item) : Except SyntaxError (Parsed (Option α)) := do
  if (← peek items).token = stop then .ok (none, items)
  else
    let (value, items) ← read items
    .ok (some value, items)

/-- What the head of a `for` holds. -/
structure ForHead where
  init : Option Stmt
  cond : Option Expr
  step : Option Stmt

/-- Reads the head of a `for`, behind its keyword. -/
def readForHead (fuel : Nat) (items : List Item) : Except SyntaxError (Parsed ForHead) := do
  let ((), items) ← expectSign .lparen items
  let (init, items) ← readUnless (.punct .semicolon) (readSimple fuel) items
  let ((), items) ← expectSign .semicolon items
  let (cond, items) ← readUnless (.punct .semicolon) (readExpr fuel) items
  let ((), items) ← expectSign .semicolon items
  let (step, items) ← readUnless (.punct .rparen) (readSimple fuel) items
  let ((), items) ← expectSign .rparen items
  .ok (⟨init, cond, step⟩, items)

/-- Reads the semicolon that closes the statement `stmt`. -/
def closeStmt (stmt : Stmt) (items : List Item) : Except SyntaxError (Parsed Stmt) := do
  let ((), items) ← expectSign .semicolon items
  .ok (stmt, items)

mutual

/-- Reads the statements of a block that are left, behind those in `taken` (last first), and its
closing brace. -/
def readStmts : Nat → List Stmt → List Item → Except SyntaxError (Parsed (List Stmt))
  | 0, _, items => outOfFuel items
  | fuel + 1, taken, items => do
    let next ← peek items
    match next.token with
    | .punct .rbrace => .ok (taken.reverse, items.tail)
    | .eof => .error ⟨next.line, .unclosedBlock⟩
    | _ =>
      let (stmt, items) ← readStmt fuel items
      readStmts fuel (stmt :: taken) items

/-- Reads a statement. A semicolon alone is an empty block, and an `else` belongs to the nearest
`if`. -/
def readStmt : Nat → List Item → Except SyntaxError (Parsed Stmt)
  | 0, items => outOfFuel items
  | fuel + 1, items => do
    let first ← peek items
    let line := first.line
    match first.token with
    | .punct .lbrace =>
      let (body, items) ← readStmts fuel [] items.tail
      .ok (.block line body, items)
    | .punct .semicolon => .ok (.block line [], items.tail)
    | .keyword .constWord =>
      let (constant, items) ← readConstant items.tail
      .ok (.const line constant.name constant.value, items)
    | .keyword .ifWord =>
      let (cond, items) ← readCondition fuel items.tail
      let (yes, items) ← readStmt fuel items
      if (← peek items).token = .keyword .elseWord then
        let (no, items) ← readStmt fuel items.tail
        .ok (.ifElse line cond yes (some no), items)
      else .ok (.ifElse line cond yes none, items)
    | .keyword .whileWord =>
      let (cond, items) ← readCondition fuel items.tail
      let (body, items) ← readStmt fuel items
      .ok (.whileLoop line cond body, items)
    | .keyword .forWord =>
      let (head, items) ← readForHead fuel items.tail
      let (body, items) ← readStmt fuel items
      .ok (.forLoop line head.init head.cond head.step body, items)
    | .keyword .breakWord => closeStmt (.breakLoop line) items.tail
    | .keyword .continueWord => closeStmt (.continueLoop line) items.tail
    | .keyword .returnWord => closeStmt (.leave line) items.tail
    | .keyword .functionWord | .keyword .inlineWord => .error ⟨line, .nestedFunction⟩
    | _ =>
      let (stmt, items) ← readSimple fuel items
      closeStmt stmt items

end

/-- Reads a block. -/
def readBlock (fuel : Nat) (items : List Item) : Except SyntaxError (Parsed Stmt) := do
  let first ← peek items
  let ((), items) ← expectSign .lbrace items
  let (body, items) ← readStmts fuel [] items
  .ok (.block first.line body, items)

/-! ## Scripts -/

/-- Reads a function. -/
def readRoutine (fuel : Nat) (items : List Item) : Except SyntaxError (Parsed Routine) := do
  let first ← peek items
  let inlined := first.token = .keyword .inlineWord
  let items := if inlined then items.tail else items
  let ((), items) ← expect (.keyword .functionWord) .functionWord items
  let (name, items) ← readName .functionName items
  let ((), items) ← expectSign .lparen items
  let ((), items) ← expect (.punct .rparen) .headEnd items
  let (body, items) ← readBlock fuel items
  .ok ({ name, kind := if inlined then .inlined else .normal, body, line := first.line }, items)

/-- Reads the constants and functions that are left, behind those already read (last first). -/
def readScript : Nat → List Constant → List Routine → List Item → Except SyntaxError Declarations
  | 0, _, _, items => (outOfFuel items).map (·.1)
  | fuel + 1, constants, routines, items => do
    let next ← peek items
    match next.token with
    | .eof => .ok ⟨constants.reverse, routines.reverse⟩
    | .keyword .constWord =>
      let (constant, items) ← readConstant items.tail
      readScript fuel (constant :: constants) routines items
    | .keyword .functionWord | .keyword .inlineWord =>
      let (routine, items) ← readRoutine fuel items
      readScript fuel constants (routine :: routines) items
    | _ => .error ⟨next.line, .unexpected .declaration next.token⟩

/-- Fuel that suffices for `count` items: between two items that are read the reader descends
through fewer than eight functions. -/
def parseFuel (count : Nat) : Nat := 8 * (count + 1)

/-- Reads a script from its items. -/
def parseItems (items : List Item) : Except SyntaxError Declarations :=
  readScript (parseFuel items.length) [] [] items

/-- Reads a script's text. -/
def parse (source : String) : Except SyntaxError Declarations :=
  parseItems (items source)

end RoomForge.Script
