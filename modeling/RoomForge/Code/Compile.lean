import RoomForge.Code.Encoding
import RoomForge.Code.Fragment
import RoomForge.Code.Scope

set_option autoImplicit false

/-! # Compiling functions

The function compiler (specification, section 4.3). Expressions and statements become fragments of
code. Local variables take the slots of one frame in the order in which they are declared; `next` is
always the first slot not yet taken. A call of an inlined function becomes its body, compiled under
the room's names alone.

Where this goes beyond the section:

* `expandCall` follows calls of inlined functions to a depth that is given, one more than the room
  has functions. No chain of calls without a repeated name is longer, so the depth is never what
  stops an expansion; `Proofs.Inlining` has the proof.
* Faults in an expanded body are reported under the name of the function that is compiled, and those
  in the condition of a `for` under the line on which its first part ends. `Proofs.FaultSites` says
  exactly which place is reported.
* A jump is never patched: a fragment names its open targets by role, and `Proofs.Agreement` shows
  that writing in one pass and patching gives the same code.
-/

namespace RoomForge.Code

open RoomForge.Script

/-- What the compilation of a body knows besides its scope. -/
structure Setting where
  /-- The function that errors name. -/
  function : String
  /-- Whether the body is expanded inside another one. -/
  inlined : Bool
  /-- The code of an inlined function at a call where the slot `next` is the first free one, and
  the first free slot behind it. -/
  expand : (routine : Routine) → (next : Nat) → Except CompileError (Fragment × Nat)

namespace Setting

/-- The place of a fault on `line`. -/
def site (setting : Setting) (line : Nat) : Site :=
  ⟨setting.function, line⟩

end Setting

/-! ## Expressions -/

/-- The code of an expression. A row of operands grows at its end, so the last instruction comes
first here. -/
structure ExprCode where
  back : Fragment
  next : Nat
  /-- Whether the code leaves a value. -/
  value : Bool

/-- The instructions of an expression in the order in which they run. -/
def ExprCode.code (compiled : ExprCode) : Fragment :=
  compiled.back.reverse

/-- The instruction that pushes a number, which has to be a signed word. -/
def pushNumber (site : Site) (value : Int) : Except CompileError (Instr Target) :=
  if -32768 ≤ value ∧ value ≤ 32767 then .ok (.pushWord (Int16.ofInt value))
  else .error (.notWord site value)

/-- The instruction that pushes what a name stands for. -/
def pushName (site : Site) (scope : Scope) (name : String) : Except CompileError (Instr Target) :=
  match scope.resolve? name with
  | some (.constant value) => pushNumber site value
  | some (.slot slot) => .ok (.loadLocal slot)
  | some (.global id) => .ok (.loadGlobal id)
  | some (.routine _) | some (.builtin _) => .error (.misuse site (.notCalled name))
  | none => .error (.unresolved site name)

/-- The name by which an error calls an expression that leaves no value. -/
def calledName : Expr → String
  | .call name _ => name
  | _ => ""

/-- The code of an operand, last instruction first. It has to leave a value. -/
def requireValue (site : Site) (expr : Expr) (compiled : ExprCode) :
    Except CompileError (Fragment × Nat) :=
  if compiled.value then .ok (compiled.back, compiled.next)
  else .error (.noValue site (calledName expr))

/-- The code of a call of a script function. -/
def callRoutine (setting : Setting) (site : Site) (name : String) (routine : Routine)
    (argc next : Nat) : Except CompileError ExprCode :=
  if argc ≠ 0 then .error (.arity site name 0 argc)
  else if routine.isInlined then do
    let (code, next) ← setting.expand routine next
    .ok ⟨code.reverse, next, false⟩
  else
    match routine.number with
    | some number => .ok ⟨[.startScript number], next, false⟩
    | none => .error (.misuse site (.unnumbered name))

mutual

/-- The code of an expression in a statement on `line`. -/
def compileExpr (setting : Setting) (scope : Scope) (line : Nat) :
    Expr → (next : Nat) → Except CompileError ExprCode
  | .int value, next => do
    let push ← pushNumber (setting.site line) value
    .ok ⟨[push], next, true⟩
  | .str text, next => .ok ⟨[.pushString text], next, true⟩
  | .ident name, next => do
    let push ← pushName (setting.site line) scope name
    .ok ⟨[push], next, true⟩
  | .call name args, next =>
    match scope.resolve? name with
    | some (.builtin builtin) =>
      if args.length ≠ builtin.arity then
        .error (.arity (setting.site line) name builtin.arity args.length)
      else do
        let (back, next) ← compileArgs setting scope line args next
        let call := .callBuiltin builtin.id (UInt8.ofNat args.length)
        .ok ⟨call :: back, next, builtin.returns⟩
    | some (.routine routine) =>
      callRoutine setting (setting.site line) name routine args.length next
    | some _ => .error (.misuse (setting.site line) (.notFunction name))
    | none => .error (.unresolved (setting.site line) name)
  | .unary op operand, next => do
    let compiled ← compileExpr setting scope line operand next
    let (back, next) ← requireValue (setting.site line) operand compiled
    .ok ⟨.unary op :: back, next, true⟩
  | .binary op left right, next => do
    let compiled ← compileExpr setting scope line left next
    let (leftBack, next) ← requireValue (setting.site line) left compiled
    let compiled ← compileExpr setting scope line right next
    let (rightBack, next) ← requireValue (setting.site line) right compiled
    .ok ⟨.binary op :: (rightBack ++ leftBack), next, true⟩

/-- The code of a call's arguments, last instruction first. All have to leave a value. -/
def compileArgs (setting : Setting) (scope : Scope) (line : Nat) :
    List Expr → (next : Nat) → Except CompileError (Fragment × Nat)
  | [], next => .ok ([], next)
  | arg :: rest, next => do
    let compiled ← compileExpr setting scope line arg next
    let (argBack, next) ← requireValue (setting.site line) arg compiled
    let (restBack, next) ← compileArgs setting scope line rest next
    .ok (restBack ++ argBack, next)

end

theorem compileExpr_str (setting : Setting) (scope : Scope) (line : Nat) (text : String)
    (next : Nat) :
    compileExpr setting scope line (.str text) next = .ok ⟨[.pushString text], next, true⟩ := by
  rw [compileExpr]

/-- The code of an expression that has to leave a value. -/
def compileValue (setting : Setting) (scope : Scope) (line : Nat) (expr : Expr) (next : Nat) :
    Except CompileError (Fragment × Nat) := do
  let compiled ← compileExpr setting scope line expr next
  let (back, next) ← requireValue (setting.site line) expr compiled
  .ok (back.reverse, next)

/-- The code of a variable's initial value, which is zero unless one is given. -/
def compileInit (setting : Setting) (scope : Scope) (line : Nat) (init : Option Expr) (next : Nat) :
    Except CompileError (Fragment × Nat) :=
  match init with
  | some init => compileValue setting scope line init next
  | none => .ok ([.pushWord 0], next)

/-- The code of a condition, if there is one. -/
def compileCond (setting : Setting) (scope : Scope) (line : Nat) (cond : Option Expr) (next : Nat) :
    Except CompileError (Option Fragment × Nat) :=
  match cond with
  | none => .ok (none, next)
  | some cond => do
    let (code, next) ← compileValue setting scope line cond next
    .ok (some code, next)

/-! ## Statements -/

/-- The code of a statement, and what is declared and taken behind it. -/
structure StmtCode where
  code : Fragment
  scope : Scope
  next : Nat

/-- The slot of a new variable. A frame has 256 of them. -/
def newSlot (function : String) (next : Nat) : Except CompileError UInt8 :=
  if next < 256 then .ok (UInt8.ofNat next) else .error (.tooManyLocals function)

/-- The instruction that stores into the variable `name`. -/
def storeName (site : Site) (scope : Scope) (name : String) : Except CompileError (Instr Target) :=
  match scope.resolve? name with
  | some (.slot slot) => .ok (.storeLocal slot)
  | some (.global id) => .ok (.storeGlobal id)
  | some _ => .error (.misuse site (.assigned name))
  | none => .error (.unresolved site name)

/-- A choice: `yes` if the condition holds, and otherwise `no`, if there is one. -/
def choice (cond yes : Fragment) : Option Fragment → Fragment
  | none => cond ++ .jumpIfFalse (.apart (yes.length + 1)) :: yes
  | some no =>
    cond ++ .jumpIfFalse (.apart (yes.length + 2)) :: yes ++ .jump (.apart (no.length + 1)) :: no

/-- The test at the head of a loop, in front of `behind` instructions of the loop. -/
def loopTest (cond : Option Fragment) (behind : Nat) : Fragment :=
  match cond with
  | none => []
  | some cond => cond ++ [.jumpIfFalse (.apart (behind + 1))]

/-- A loop with a test in front of its body and a step behind it. A turn goes on with the step. -/
def stepLoop (cond : Option Fragment) (body step : Fragment) : Fragment :=
  let behind := body.length + step.length + 1
  let test := loopTest cond behind
  let settled := body.settle (.ofLoop behind body.length)
  let turn := test ++ settled ++ step
  turn ++ [.jump (.apart (-(turn.length : Int)))]

/-- A loop with a test in front of its body. A turn goes on with the test. -/
def testLoop (cond body : Fragment) : Fragment :=
  let behind := body.length + 1
  let test := loopTest (some cond) behind
  let settled := body.settle (.ofLoop behind (-(test.length : Int)))
  let turn := test ++ settled
  turn ++ [.jump (.apart (-(turn.length : Int)))]

mutual

/-- The line of the statement that is compiled last in a statement. -/
def lastLine : Stmt → Nat
  | .block line body => lastLineOf line body
  | .ifElse _ _ yes no => (lastLine? no).getD (lastLine yes)
  | .whileLoop _ _ body => lastLine body
  | .forLoop _ _ _ step body => (lastLine? step).getD (lastLine body)
  | .var line .. | .const line .. | .assign line .. | .eval line .. | .breakLoop line
  | .continueLoop line | .leave line => line

/-- The line of the statement that is compiled last in `body`, and `line` if there is none. -/
def lastLineOf (line : Nat) : List Stmt → Nat
  | [] => line
  | stmt :: rest => lastLineOf (lastLine stmt) rest

/-- The line of the statement that is compiled last, if there is a statement. -/
def lastLine? : Option Stmt → Option Nat
  | none => none
  | some stmt => some (lastLine stmt)

end

theorem lastLine_const (line : Nat) (name : String) (value : Int) :
    lastLine (.const line name value) = line := by
  rw [lastLine]

mutual

/-- The code of a statement. -/
def compileStmt (setting : Setting) :
    Stmt → Scope → (next : Nat) → Except CompileError StmtCode
  | .block _ body, scope, next => do
    let compiled ← compileStmts setting body (scope.push .block) next []
    .ok { compiled with scope }
  | .var line name init, scope, next => do
    let slot ← newSlot setting.function next
    let (code, next) ← compileInit setting scope line init (next + 1)
    .ok ⟨code ++ [.storeLocal slot], scope.declareLocal name slot, next⟩
  | .const _ name value, scope, next => .ok ⟨[], scope.declareConst ⟨name, value⟩, next⟩
  | .assign line name value, scope, next => do
    let store ← storeName (setting.site line) scope name
    let (code, next) ← compileValue setting scope line value next
    .ok ⟨code ++ [store], scope, next⟩
  | .eval line expr, scope, next => do
    let compiled ← compileExpr setting scope line expr next
    let code := if compiled.value then compiled.code ++ [.pop] else compiled.code
    .ok ⟨code, scope, compiled.next⟩
  | .ifElse line cond yes no, scope, next => do
    let (cond, next) ← compileValue setting scope line cond next
    let yes ← compileStmt setting yes (scope.push .block) next
    let no ← compileOptional setting no (scope.push .block) yes.next
    .ok ⟨choice cond yes.code no.1, scope, no.2.next⟩
  | .whileLoop line cond body, scope, next => do
    let (cond, next) ← compileValue setting scope line cond next
    let body ← compileStmt setting body (scope.push .loop) next
    .ok ⟨testLoop cond body.code, scope, body.next⟩
  | .forLoop line init cond step body, scope, next => do
    let (initCode, head) ← compileOptional setting init (scope.push .block) next
    let line := (lastLine? init).getD line
    let (cond, next) ← compileCond setting head.scope line cond head.next
    let body ← compileStmt setting body (head.scope.push .loop) next
    let (stepCode, step) ← compileOptional setting step head.scope body.next
    .ok ⟨initCode.getD [] ++ stepLoop cond body.code (stepCode.getD []), scope, step.next⟩
  | .breakLoop line, scope, next =>
    if scope.inLoop then .ok ⟨[.jump .loopEnd], scope, next⟩
    else .error (.misuse (setting.site line) .breakOutside)
  | .continueLoop line, scope, next =>
    if scope.inLoop then .ok ⟨[.jump .loopNext], scope, next⟩
    else .error (.misuse (setting.site line) .continueOutside)
  | .leave _, scope, next =>
    .ok ⟨[if setting.inlined then .jump .bodyEnd else .stop], scope, next⟩

/-- The code of a row of statements, behind the fragments in `taken` (last first). -/
def compileStmts (setting : Setting) :
    List Stmt → Scope → (next : Nat) → (taken : List Fragment) → Except CompileError StmtCode
  | [], scope, next, taken => .ok ⟨taken.reverse.flatten, scope, next⟩
  | stmt :: rest, scope, next, taken => do
    let compiled ← compileStmt setting stmt scope next
    compileStmts setting rest compiled.scope compiled.next (compiled.code :: taken)

/-- The code of a statement that may be missing, and the scope and slots behind it. -/
def compileOptional (setting : Setting) :
    Option Stmt → Scope → (next : Nat) → Except CompileError (Option Fragment × StmtCode)
  | none, scope, next => .ok (none, ⟨[], scope, next⟩)
  | some stmt, scope, next => do
    let compiled ← compileStmt setting stmt scope next
    .ok (some compiled.code, compiled)

end

theorem compileStmt_const (setting : Setting) (line : Nat) (name : String) (value : Int)
    (scope : Scope) (next : Nat) :
    compileStmt setting (.const line name value) scope next =
      .ok ⟨[], scope.declareConst ⟨name, value⟩, next⟩ := by
  rw [compileStmt]

/-! ## Functions -/

/-- The code of an inlined function at a call. `calls` holds the names of the functions being
expanded around the call, none of which may be expanded again; `depth` bounds how many more can
be. -/
def expandCall (function : String) (room : Scope) :
    (depth : Nat) → (calls : List String) → (routine : Routine) → (next : Nat) →
      Except CompileError (Fragment × Nat)
  | 0, _, routine, _ => .error (.recursiveInline routine.name)
  | depth + 1, calls, routine, next =>
    if routine.name ∈ calls then .error (.recursiveInline routine.name)
    else do
      let expand := expandCall function room depth (routine.name :: calls)
      let body ← compileStmt ⟨function, true, expand⟩ routine.body (room.push .function) next
      .ok (body.code.settle (.ofBody body.code.length), body.next)

/-- The instructions of a function, and how many slots its variables take. -/
structure Listing where
  instrs : List (Instr Nat)
  locals : Nat
  deriving DecidableEq, Repr, Inhabited

/-- The setting in which a function of a room is compiled on its own: each function of the room can
be expanded once around a call. -/
def Setting.ofRoutine (room : Scope) (routine : Routine) : Setting :=
  ⟨routine.name, false, fun callee next =>
    expandCall routine.name room (room.routines.length + 1) [] callee next⟩

/-- Compiles a function under the names of its room. -/
def compileListing (room : Scope) (routine : Routine) : Except CompileError Listing := do
  let setting := Setting.ofRoutine room routine
  let body ← compileStmt setting routine.body (room.push .function) 0
  match Fragment.link? (body.code ++ [.stop]) with
  | some instrs => .ok ⟨instrs, body.next⟩
  | none => .error (.danglingJump routine.name)

/-- Compiles a function to bytes. -/
def compileBytes (room : Scope) (routine : Routine) : Except CompileError Bytes := do
  let listing ← compileListing room routine
  encode routine.name listing.instrs

end RoomForge.Code
