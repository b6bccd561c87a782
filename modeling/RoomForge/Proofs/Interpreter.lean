import RoomForge.Proofs.Machine

set_option autoImplicit false

/-! # Running a script's tree

The meaning of a script function, said of its tree alone. Names are bound by the text: an
environment is a chain of levels, one for each level of nesting, and only a declaration changes it,
for the statements behind it in its level. A variable is a cell of its own, made anew each time its
declaration runs. Code, slots and jumps have no part in this.

Runs that take too long end with `Stop.exhausted`: `fuel` bounds the turns of every loop and the
nesting of inlined calls. A function terminates if some amount of fuel gives a result.

Section 1 of the specification leaves running scripts to the engine, so there is no text that fixes
their meaning. What is fixed in sections 4.1 to 4.3 is kept: both operands of a logical operator are
evaluated, and the body of an inlined function sees the names of its room alone.
-/

namespace RoomForge.Code

open RoomForge.Script

/-! ## Names -/

/-- What a name stands for while a script runs. -/
inductive Referent where
  | constant (value : Int)
  /-- A variable, by the cell that holds its value. -/
  | cell (index : Nat)
  /-- A variable of the engine, by its number. -/
  | global (id : UInt16)
  | routine (routine : Routine)
  | builtin (builtin : Builtin)
  deriving Repr, Inhabited

/-- The names of one level of nesting. Of constants and variables the latest stands first. -/
structure Level where
  constants : List Constant := []
  /-- Variables, by their cells. -/
  cells : List (String × Nat) := []
  routines : List Routine := []
  deriving Repr, Inhabited

/-- What a name stands for in one level. A variable hides a constant of its level, and both hide a
function. -/
def Level.find? (level : Level) (name : String) : Option Referent :=
  match level.cells.find? fun entry => entry.1 == name with
  | some entry => some (.cell entry.2)
  | none =>
    match level.constants.find? fun constant => constant.name == name with
    | some constant => some (.constant constant.value)
    | none => (level.routines.find? fun routine => routine.name == name).map .routine

/-- A chain of levels, innermost first. -/
abbrev Env := List Level

namespace Env

/-- The environment of a room: its constants, later ones hiding earlier ones, and its functions. -/
def ofRoom (constants : List Constant) (routines : List Routine) : Env :=
  [{ constants := constants.reverse, routines }]

/-- What a name stands for. The engine's names come last. -/
def lookup : Env → String → Option Referent
  | [], name =>
    match Engine.global? name with
    | some id => some (.global id)
    | none => (Engine.builtin? name).map .builtin
  | level :: outer, name =>
    match level.find? name with
    | some referent => some referent
    | none => lookup outer name

/-- Opens a level. -/
def enter (env : Env) : Env :=
  {} :: env

/-- Binds a constant in the innermost level. -/
def bindConst (env : Env) (constant : Constant) : Env :=
  env.modifyHead fun level => { level with constants := constant :: level.constants }

/-- Binds a variable in the innermost level. -/
def bindCell (env : Env) (name : String) (index : Nat) : Env :=
  env.modifyHead fun level => { level with cells := (name, index) :: level.cells }

end Env

/-! ## States -/

/-- The values of all variables made so far, and the world. -/
structure State (V : Type) where
  cells : List V
  world : World V

variable {V : Type}

namespace State

/-- A new variable. -/
def alloc (state : State V) (value : V) : State V :=
  { state with cells := state.cells ++ [value] }

/-- The value that a name stands for. -/
def read (interp : Interpretation V) (state : State V) : Option Referent → Run V
  | some (.constant value) => .ok (interp.number value)
  | some (.cell index) =>
    match state.cells[index]? with
    | some value => .ok value
    | none => .error .stuck
  | some (.global id) => .ok (state.world.globals id)
  | _ => .error .stuck

/-- The state behind an assignment to what a name stands for. -/
def write (state : State V) (value : V) : Option Referent → Run (State V)
  | some (.cell index) => .ok { state with cells := state.cells.set index value }
  | some (.global id) => .ok { state with world := state.world.store id value }
  | _ => .error .stuck

/-- The state behind an event. -/
def record (interp : Interpretation V) (state : State V) (event : Event V) : State V :=
  { state with world := state.world.record interp event }

end State

/-! ## Expressions -/

/-- The meaning of inlined functions. -/
abbrev Calls (V : Type) := Routine → State V → Run (State V)

/-- The value of an operand, which has to have one. -/
def operand : Option V → Run V
  | some value => .ok value
  | none => .error .stuck

/-- A call of a script function with `argc` arguments. -/
def evalRoutine (interp : Interpretation V) (calls : Calls V) (routine : Routine) (argc : Nat)
    (state : State V) : Run (State V) :=
  if argc ≠ 0 then .error .stuck
  else if routine.isInlined then calls routine state
  else
    match routine.number with
    | some number => .ok (state.record interp (.started number))
    | none => .error .stuck

mutual

/-- The value of an expression, if it has one, and the state behind it. Operands are evaluated from
left to right, and those of `&&` and `||` are no exception. -/
def evalExpr (interp : Interpretation V) (calls : Calls V) (env : Env) :
    Expr → State V → Run (Option V × State V)
  | .int value, state => .ok (some (interp.number value), state)
  | .str text, state => .ok (some (interp.text text), state)
  | .ident name, state => do
    let value ← state.read interp (env.lookup name)
    .ok (some value, state)
  | .call name args, state =>
    match env.lookup name with
    | some (.builtin builtin) =>
      if args.length ≠ builtin.arity then .error .stuck
      else do
        let (values, state) ← evalArgs interp calls env args state
        let answer := interp.answer builtin.id values state.world
        .ok (if builtin.returns then some answer else none,
          state.record interp (.called builtin.id values))
    | some (.routine routine) => do
      let state ← evalRoutine interp calls routine args.length state
      .ok (none, state)
    | _ => .error .stuck
  | .unary op expr, state => do
    let (value, state) ← evalExpr interp calls env expr state
    let value ← operand value
    .ok (some (interp.unary op value), state)
  | .binary op left right, state => do
    let (leftValue, state) ← evalExpr interp calls env left state
    let leftValue ← operand leftValue
    let (rightValue, state) ← evalExpr interp calls env right state
    let rightValue ← operand rightValue
    .ok (some (interp.binary op leftValue rightValue), state)

/-- The values of a call's arguments. -/
def evalArgs (interp : Interpretation V) (calls : Calls V) (env : Env) :
    List Expr → State V → Run (List V × State V)
  | [], state => .ok ([], state)
  | arg :: rest, state => do
    let (value, state) ← evalExpr interp calls env arg state
    let value ← operand value
    let (values, state) ← evalArgs interp calls env rest state
    .ok (value :: values, state)

end

/-- The value of an expression that has to have one. -/
def evalValue (interp : Interpretation V) (calls : Calls V) (env : Env) (expr : Expr)
    (state : State V) : Run (V × State V) := do
  let (value, state) ← evalExpr interp calls env expr state
  let value ← operand value
  .ok (value, state)

theorem evalExpr_unary (interp : Interpretation V) (calls : Calls V) (env : Env) (op : UnOp)
    (expr : Expr) (state : State V) :
    evalExpr interp calls env (.unary op expr) state =
      evalValue interp calls env expr state >>= fun result =>
        .ok (some (interp.unary op result.1), result.2) := by
  rw [evalExpr, evalValue, bind_assoc]
  refine bind_congr fun result => ?_
  rw [bind_assoc]
  rfl

theorem evalExpr_binary (interp : Interpretation V) (calls : Calls V) (env : Env) (op : BinOp)
    (left right : Expr) (state : State V) :
    evalExpr interp calls env (.binary op left right) state =
      evalValue interp calls env left state >>= fun leftResult =>
        evalValue interp calls env right leftResult.2 >>= fun rightResult =>
          .ok (some (interp.binary op leftResult.1 rightResult.1), rightResult.2) := by
  rw [evalExpr, evalValue, bind_assoc]
  refine bind_congr fun leftResult => ?_
  rw [bind_assoc]
  refine bind_congr fun leftValue => ?_
  show _ = evalValue interp calls env right leftResult.2 >>= _
  rw [evalValue, bind_assoc]
  refine bind_congr fun rightResult => ?_
  rw [bind_assoc]
  rfl

theorem evalArgs_cons (interp : Interpretation V) (calls : Calls V) (env : Env) (arg : Expr)
    (rest : List Expr) (state : State V) :
    evalArgs interp calls env (arg :: rest) state =
      evalValue interp calls env arg state >>= fun result =>
        evalArgs interp calls env rest result.2 >>= fun results =>
          .ok (result.1 :: results.1, results.2) := by
  rw [evalArgs, evalValue, bind_assoc]
  refine bind_congr fun result => ?_
  rw [bind_assoc]
  rfl

/-- The initial value of a variable, which is zero unless one is given. -/
def evalInit (interp : Interpretation V) (calls : Calls V) (env : Env) (init : Option Expr)
    (state : State V) : Run (V × State V) :=
  match init with
  | some init => evalValue interp calls env init state
  | none => .ok (interp.number 0, state)

/-- Whether a condition holds. A missing one does. -/
def evalCond (interp : Interpretation V) (calls : Calls V) (env : Env) (cond : Option Expr)
    (state : State V) : Run (Bool × State V) :=
  match cond with
  | some cond => do
    let (value, state) ← evalValue interp calls env cond state
    .ok (interp.holds value, state)
  | none => .ok (true, state)

/-! ## Statements -/

/-- How a statement ends. -/
inductive Ending where
  /-- The statement behind it is next. -/
  | done
  /-- The innermost loop is left. -/
  | broke
  /-- The innermost loop goes on with its next turn. -/
  | continued
  /-- The function is left. -/
  | left
  deriving DecidableEq, Repr, Inhabited

/-- One turn of a loop. It gives the loop's ending, unless there is another turn. A step is no part
of its loop's body, so what it ends with is the loop's own ending. -/
def turn (test : State V → Run (Bool × State V)) (body step : State V → Run (Ending × State V))
    (state : State V) : Run (Option Ending × State V) := do
  let (holds, state) ← test state
  if holds then
    let (ending, state) ← body state
    match ending with
    | .done | .continued =>
      let (ending, state) ← step state
      match ending with
      | .done => .ok (none, state)
      | ending => .ok (some ending, state)
    | .broke => .ok (some .done, state)
    | .left => .ok (some .left, state)
  else .ok (some .done, state)

/-- Turns of a loop up to its end, at most `fuel` of them. -/
def turns (next : State V → Run (Option Ending × State V)) :
    (fuel : Nat) → State V → Run (Ending × State V)
  | 0, _ => .error .exhausted
  | fuel + 1, state => do
    let (ending, state) ← next state
    match ending with
    | some ending => .ok (ending, state)
    | none => turns next fuel state

/-- What is left of a statement in a level of its own. -/
def leaveLevel (result : Ending × Env × State V) : Ending × State V :=
  (result.1, result.2.2)

mutual

/-- Runs a statement, and gives the environment for the statement behind it. -/
def execStmt (interp : Interpretation V) (calls : Calls V) (fuel : Nat) :
    Stmt → Env → State V → Run (Ending × Env × State V)
  | .block _ body, env, state => do
    let (ending, _, state) ← execStmts interp calls fuel body env.enter state
    .ok (ending, env, state)
  | .var _ name init, env, state => do
    let (value, state) ← evalInit interp calls env init state
    .ok (.done, env.bindCell name state.cells.length, state.alloc value)
  | .const _ name value, env, state => .ok (.done, env.bindConst ⟨name, value⟩, state)
  | .assign _ name expr, env, state => do
    let (value, state) ← evalValue interp calls env expr state
    let state ← state.write value (env.lookup name)
    .ok (.done, env, state)
  | .eval _ expr, env, state => do
    let (_, state) ← evalExpr interp calls env expr state
    .ok (.done, env, state)
  | .ifElse _ cond yes no, env, state => do
    let (holds, state) ← evalCond interp calls env (some cond) state
    let (ending, _, state) ←
      if holds then execStmt interp calls fuel yes env.enter state
      else execOptional interp calls fuel no env.enter state
    .ok (ending, env, state)
  | .whileLoop _ cond body, env, state => do
    let next := turn (evalCond interp calls env (some cond))
      (fun state => leaveLevel <$> execStmt interp calls fuel body env.enter state)
      (fun state => .ok (.done, state))
    let (ending, state) ← turns next fuel state
    .ok (ending, env, state)
  | .forLoop _ init cond step body, env, state => do
    let (ending, inner, state) ← execOptional interp calls fuel init env.enter state
    match ending with
    | .done =>
      -- Whatever a step declares stands behind the test and the body, so no turn sees it.
      let next := turn (evalCond interp calls inner cond)
        (fun state => leaveLevel <$> execStmt interp calls fuel body inner.enter state)
        (fun state => leaveLevel <$> execOptional interp calls fuel step inner state)
      let (ending, state) ← turns next fuel state
      .ok (ending, env, state)
    | ending => .ok (ending, env, state)
  | .breakLoop _, env, state => .ok (.broke, env, state)
  | .continueLoop _, env, state => .ok (.continued, env, state)
  | .leave _, env, state => .ok (.left, env, state)

/-- Runs a row of statements up to the first that does not lead to the next. -/
def execStmts (interp : Interpretation V) (calls : Calls V) (fuel : Nat) :
    List Stmt → Env → State V → Run (Ending × Env × State V)
  | [], env, state => .ok (.done, env, state)
  | stmt :: rest, env, state => do
    let (ending, env, state) ← execStmt interp calls fuel stmt env state
    match ending with
    | .done => execStmts interp calls fuel rest env state
    | ending => .ok (ending, env, state)

/-- Runs a statement that may be missing. -/
def execOptional (interp : Interpretation V) (calls : Calls V) (fuel : Nat) :
    Option Stmt → Env → State V → Run (Ending × Env × State V)
  | none, env, state => .ok (.done, env, state)
  | some stmt, env, state => execStmt interp calls fuel stmt env state

end

theorem execStmt_const (interp : Interpretation V) (calls : Calls V) (fuel line : Nat)
    (name : String) (value : Int) (env : Env) (state : State V) :
    execStmt interp calls fuel (.const line name value) env state =
      .ok (.done, env.bindConst ⟨name, value⟩, state) := by
  rw [execStmt]

/-! ## Functions -/

/-- Runs a function's body. It knows the names of the room alone, and a `return` ends no more than
this body. -/
def execRoutine (interp : Interpretation V) (room : Env) : (fuel : Nat) → Calls V
  | 0, _, _ => .error .exhausted
  | fuel + 1, routine, state => do
    let (ending, _, state) ←
      execStmt interp (execRoutine interp room fuel) (fuel + 1) routine.body room.enter state
    match ending with
    | .done | .left => .ok state
    | .broke | .continued => .error .stuck

/-- Runs a function from a world, and gives the world behind it. -/
def runRoutine (interp : Interpretation V) (room : Env) (routine : Routine) (fuel : Nat)
    (world : World V) : Run (World V) := do
  let state ← execRoutine interp room fuel routine ⟨[], world⟩
  .ok state.world

end RoomForge.Code
