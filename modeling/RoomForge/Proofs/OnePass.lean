import Mathlib.Algebra.Ring.Nat
import RoomForge.Proofs.Jumps

set_option autoImplicit false

/-! # Writing code in one pass

Code can also be written straight into one list of instructions (specification, section 4.3, op
stream). Jumps whose targets are not known yet are written without one and remembered: those of a
loop with the loop, those of an inlined body with the body. Their targets are filled in when the
loop or the body is over. This gives the same code and the same faults as putting fragments
together, it never fills in a target where there is no jump, and nothing is left to be filled in at
the end.

This module has the writer. What filling in does is in `Proofs.Patching`, and the comparison in
`Proofs.Agreement`.
-/

namespace RoomForge.Code

open RoomForge.Script

/-! ## Drafts -/

/-- The jumps of a loop that wait for their targets. -/
structure LoopJumps where
  breaks : List Nat := []
  continues : List Nat := []
  deriving DecidableEq, Repr, Inhabited

/-- An inlined body that is being written, and its jumps that wait for its end. -/
structure BodyJumps where
  name : String
  returns : List Nat := []
  deriving DecidableEq, Repr, Inhabited

/-- Code in the making. -/
structure Draft where
  instrs : List (Instr Nat) := []
  /-- The first slot that is not taken. -/
  next : Nat := 0
  /-- The line of the statement that is being written. -/
  line : Nat := 0
  /-- The loops that are being written, the innermost first. -/
  loops : List LoopJumps := []
  /-- The inlined bodies that are being written, the innermost first. -/
  bodies : List BodyJumps := []
  deriving DecidableEq, Repr, Inhabited

/-- Why a draft is given up. -/
inductive Mishap where
  /-- A fault of the script. -/
  | fault (cause : CompileError)
  /-- A target was to be filled in where there is no jump. -/
  | misplaced
  deriving DecidableEq, Repr, Inhabited

/-- What stands for a target that is not known yet. -/
def unpatched : Nat :=
  2 ^ 64 - 1

/-- Fills in the target of the jump at `place`. -/
def patch (target : Nat) (instrs : List (Instr Nat)) (place : Nat) :
    Except Mishap (List (Instr Nat)) :=
  match instrs[place]? with
  | some (.jump _) => .ok (instrs.set place (.jump target))
  | some (.jumpIfFalse _) => .ok (instrs.set place (.jumpIfFalse target))
  | _ => .error .misplaced

namespace Draft

/-- The index of the next instruction. -/
def here (draft : Draft) : Nat :=
  draft.instrs.length

/-- The functions whose bodies are being written. -/
def names (draft : Draft) : List String :=
  draft.bodies.map BodyJumps.name

/-- Writes an instruction. -/
def emit (draft : Draft) (instr : Instr Nat) : Draft :=
  { draft with instrs := draft.instrs ++ [instr] }

/-- Fills in the same target at several places. -/
def patchAll (target : Nat) (places : List Nat) (draft : Draft) : Except Mishap Draft := do
  let instrs ← places.foldlM (patch target) draft.instrs
  .ok { draft with instrs }

/-- A loop begins. -/
def openLoop (draft : Draft) : Draft :=
  { draft with loops := {} :: draft.loops }

/-- A loop is over: `ending` lies behind it, and a turn goes on at `turnAt`. -/
def closeLoop (draft : Draft) (jumps : LoopJumps) (exit : Option Nat) (turnAt : Nat) :
    Except Mishap Draft := do
  let ending := draft.here
  let draft ← draft.patchAll ending (exit.toList ++ jumps.breaks)
  draft.patchAll turnAt jumps.continues

/-- Forgets the innermost loop. -/
def popLoop (draft : Draft) : Draft :=
  { draft with loops := draft.loops.tail }

/-- The jumps of the innermost loop. -/
def loopJumps (draft : Draft) : LoopJumps :=
  draft.loops.headD {}

/-- A jump to the end of the innermost loop. -/
def emitBreak (draft : Draft) : Draft :=
  { draft.emit (.jump unpatched) with
    loops := draft.loops.modifyHead fun jumps =>
      { jumps with breaks := jumps.breaks ++ [draft.here] } }

/-- A jump to the next turn of the innermost loop. -/
def emitContinue (draft : Draft) : Draft :=
  { draft.emit (.jump unpatched) with
    loops := draft.loops.modifyHead fun jumps =>
      { jumps with continues := jumps.continues ++ [draft.here] } }

/-- The end of the script, or a jump to the end of the innermost inlined body. -/
def emitReturn (draft : Draft) : Draft :=
  if draft.bodies.isEmpty then draft.emit .stop
  else
    { draft.emit (.jump unpatched) with
      bodies := draft.bodies.modifyHead fun jumps =>
        { jumps with returns := jumps.returns ++ [draft.here] } }

/-- An inlined body begins. -/
def openBody (draft : Draft) (name : String) : Draft :=
  { draft with bodies := { name } :: draft.bodies }

/-- An inlined body is over, and the line of its call goes on. -/
def closeBody (draft : Draft) (line : Nat) : Except Mishap Draft := do
  let returns := (draft.bodies.head?.map BodyJumps.returns).getD []
  let draft ← { draft with bodies := draft.bodies.tail }.patchAll draft.here returns
  .ok { draft with line }

end Draft

/-! ## Writing -/

/-- A result of the compiler as a result of writing. -/
def lift {α β : Type} (f : α → β) : Except CompileError α → Except Mishap β
  | .ok value => .ok (f value)
  | .error cause => .error (.fault cause)

/-- What writing a body knows besides its scope. -/
structure Writing where
  /-- The function that errors name. -/
  function : String
  /-- Writes an inlined function at a call. -/
  expand : Routine → Draft → Except Mishap Draft

/-- The place of a fault. -/
def Writing.site (writing : Writing) (draft : Draft) : Site :=
  ⟨writing.function, draft.line⟩

/-- Writes an instruction that has no target. -/
def Draft.put (draft : Draft) (instr : Instr Target) : Draft :=
  draft.emit (instr.mapTarget fun _ => unpatched)

/-- What was written has to leave a value. -/
def requireLeft (writing : Writing) (expr : Expr) (result : Bool × Draft) : Except Mishap Draft :=
  if result.1 then .ok result.2
  else .error (.fault (.noValue (writing.site result.2) (calledName expr)))

/-- Writes a call of a script function. -/
def writeCall (writing : Writing) (name : String) (routine : Routine) (argc : Nat) (draft : Draft) :
    Except Mishap (Bool × Draft) :=
  if argc ≠ 0 then .error (.fault (.arity (writing.site draft) name 0 argc))
  else if routine.isInlined then do
    let draft ← writing.expand routine draft
    .ok (false, draft)
  else
    match routine.number with
    | some number => .ok (false, draft.emit (.startScript number))
    | none => .error (.fault (.misuse (writing.site draft) (.unnumbered name)))

mutual

/-- Writes an expression, and says whether it leaves a value. -/
def writeExpr (writing : Writing) (scope : Scope) :
    Expr → Draft → Except Mishap (Bool × Draft)
  | .int value, draft => do
    let push ← lift id (pushNumber (writing.site draft) value)
    .ok (true, draft.put push)
  | .str text, draft => .ok (true, draft.emit (.pushString text))
  | .ident name, draft => do
    let push ← lift id (pushName (writing.site draft) scope name)
    .ok (true, draft.put push)
  | .call name args, draft =>
    match scope.resolve? name with
    | some (.builtin builtin) =>
      if args.length ≠ builtin.arity then
        .error (.fault (.arity (writing.site draft) name builtin.arity args.length))
      else do
        let draft ← writeArgs writing scope args draft
        .ok (builtin.returns, draft.emit (.callBuiltin builtin.id (UInt8.ofNat args.length)))
    | some (.routine routine) => writeCall writing name routine args.length draft
    | some _ => .error (.fault (.misuse (writing.site draft) (.notFunction name)))
    | none => .error (.fault (.unresolved (writing.site draft) name))
  | .unary op operand, draft => do
    let draft ← writeExpr writing scope operand draft >>= requireLeft writing operand
    .ok (true, draft.emit (.unary op))
  | .binary op left right, draft => do
    let draft ← writeExpr writing scope left draft >>= requireLeft writing left
    let draft ← writeExpr writing scope right draft >>= requireLeft writing right
    .ok (true, draft.emit (.binary op))

/-- Writes the arguments of a call. -/
def writeArgs (writing : Writing) (scope : Scope) : List Expr → Draft → Except Mishap Draft
  | [], draft => .ok draft
  | arg :: rest, draft => do
    let draft ← writeExpr writing scope arg draft >>= requireLeft writing arg
    writeArgs writing scope rest draft

end

theorem writeExpr_str (writing : Writing) (scope : Scope) (text : String) (draft : Draft) :
    writeExpr writing scope (.str text) draft = .ok (true, draft.emit (.pushString text)) := by
  rw [writeExpr]

/-- Writes an expression that has to leave a value. -/
def writeValue (writing : Writing) (scope : Scope) (expr : Expr) (draft : Draft) :
    Except Mishap Draft :=
  writeExpr writing scope expr draft >>= requireLeft writing expr

/-- Writes the initial value of a variable. -/
def writeInit (writing : Writing) (scope : Scope) (init : Option Expr) (draft : Draft) :
    Except Mishap Draft :=
  match init with
  | some init => writeValue writing scope init draft
  | none => .ok (draft.emit (.pushWord 0))

/-- Writes the test of a loop, if there is one, and gives the place of its jump. -/
def writeTest (writing : Writing) (scope : Scope) (cond : Option Expr) (draft : Draft) :
    Except Mishap (Option Nat × Draft) :=
  match cond with
  | some cond => do
    let draft ← writeValue writing scope cond draft
    .ok (some draft.here, draft.emit (.jumpIfFalse unpatched))
  | none => .ok (none, draft)

/-- A statement begins. -/
def Draft.goTo (draft : Draft) (line : Nat) : Draft :=
  { draft with line }

/-- A variable takes the next slot. -/
def Draft.takeSlot (draft : Draft) : Draft :=
  { draft with next := draft.next + 1 }

mutual

/-- Writes a statement, and gives the scope behind it. -/
def writeStmt (writing : Writing) : Stmt → Scope → Draft → Except Mishap (Scope × Draft)
  | .block line body, scope, draft => do
    let (_, draft) ← writeStmts writing body (scope.push .block) (draft.goTo line)
    .ok (scope, draft)
  | .var line name init, scope, draft => do
    let slot ← lift id (newSlot writing.function draft.next)
    let draft ← writeInit writing scope init (draft.goTo line).takeSlot
    .ok (scope.declareLocal name slot, draft.emit (.storeLocal slot))
  | .const line name value, scope, draft =>
    .ok (scope.declareConst ⟨name, value⟩, draft.goTo line)
  | .assign line name value, scope, draft => do
    let draft := draft.goTo line
    let store ← lift id (storeName (writing.site draft) scope name)
    let draft ← writeValue writing scope value draft
    .ok (scope, draft.put store)
  | .eval line expr, scope, draft => do
    let (left, draft) ← writeExpr writing scope expr (draft.goTo line)
    .ok (scope, if left then draft.emit .pop else draft)
  | .ifElse line cond yes none, scope, draft => do
    let draft ← writeValue writing scope cond (draft.goTo line)
    let skip := draft.here
    let (_, draft) ← writeStmt writing yes (scope.push .block) (draft.emit (.jumpIfFalse unpatched))
    let draft ← draft.patchAll draft.here [skip]
    .ok (scope, draft)
  | .ifElse line cond yes (some no), scope, draft => do
    let draft ← writeValue writing scope cond (draft.goTo line)
    let skipYes := draft.here
    let (_, draft) ← writeStmt writing yes (scope.push .block) (draft.emit (.jumpIfFalse unpatched))
    let skipNo := draft.here
    let draft := draft.emit (.jump unpatched)
    let draft ← draft.patchAll draft.here [skipYes]
    let (_, draft) ← writeStmt writing no (scope.push .block) draft
    let draft ← draft.patchAll draft.here [skipNo]
    .ok (scope, draft)
  | .whileLoop line cond body, scope, draft => do
    let start := draft.here
    let (exit, draft) ← writeTest writing scope (some cond) (draft.goTo line)
    let (_, draft) ← writeStmt writing body (scope.push .loop) draft.openLoop
    let draft ← (draft.popLoop.emit (.jump start)).closeLoop draft.loopJumps exit start
    .ok (scope, draft)
  | .forLoop line init cond step body, scope, draft => do
    let (head, draft) ← writeOptional writing init (scope.push .block) (draft.goTo line)
    let start := draft.here
    let (exit, draft) ← writeTest writing head cond draft
    let (_, draft) ← writeStmt writing body (head.push .loop) draft.openLoop
    let jumps := draft.loopJumps
    let turnAt := draft.here
    let (_, draft) ← writeOptional writing step head draft.popLoop
    let draft ← (draft.emit (.jump start)).closeLoop jumps exit turnAt
    .ok (scope, draft)
  | .breakLoop line, scope, draft =>
    if scope.inLoop then .ok (scope, (draft.goTo line).emitBreak)
    else .error (.fault (.misuse (writing.site (draft.goTo line)) .breakOutside))
  | .continueLoop line, scope, draft =>
    if scope.inLoop then .ok (scope, (draft.goTo line).emitContinue)
    else .error (.fault (.misuse (writing.site (draft.goTo line)) .continueOutside))
  | .leave line, scope, draft => .ok (scope, (draft.goTo line).emitReturn)

/-- Writes a row of statements. -/
def writeStmts (writing : Writing) : List Stmt → Scope → Draft → Except Mishap (Scope × Draft)
  | [], scope, draft => .ok (scope, draft)
  | stmt :: rest, scope, draft => do
    let (scope, draft) ← writeStmt writing stmt scope draft
    writeStmts writing rest scope draft

/-- Writes a statement that may be missing. -/
def writeOptional (writing : Writing) : Option Stmt → Scope → Draft → Except Mishap (Scope × Draft)
  | none, scope, draft => .ok (scope, draft)
  | some stmt, scope, draft => writeStmt writing stmt scope draft

end

theorem writeStmt_const (writing : Writing) (line : Nat) (name : String) (value : Int)
    (scope : Scope) (draft : Draft) :
    writeStmt writing (.const line name value) scope draft =
      .ok (scope.declareConst ⟨name, value⟩, draft.goTo line) := by
  rw [writeStmt]

/-- Writes an inlined function at a call, unless it is being written already. `depth` bounds how
many more can be. -/
def writeBody (function : String) (room : Scope) :
    (depth : Nat) → Routine → Draft → Except Mishap Draft
  | 0, routine, _ => .error (.fault (.recursiveInline routine.name))
  | depth + 1, routine, draft =>
    if routine.name ∈ draft.names then .error (.fault (.recursiveInline routine.name))
    else do
      let writing : Writing := ⟨function, writeBody function room depth⟩
      let (_, written) ← writeStmt writing routine.body (room.push .function)
        (draft.openBody routine.name)
      written.closeBody draft.line

/-- Writes a function under the names of its room. -/
def writeRoutine (room : Scope) (routine : Routine) : Except Mishap Draft := do
  let writing : Writing := ⟨routine.name, writeBody routine.name room (room.routines.length + 1)⟩
  let (_, draft) ← writeStmt writing routine.body (room.push .function) {}
  .ok (draft.emit .stop)

end RoomForge.Code
