import Mathlib.Logic.Relation
import RoomForge.Proofs.Callees

set_option autoImplicit false

/-! # Where faults are reported

An error about a script's meaning names a function and a line (specification, sections 4.3 and 7).
Which statement causes it is read off the tree: `Reaches` walks to a statement and says which names
it sees, and `StmtFault` says what is wrong with the statement or with an expression in it. Every
such error has a cause in the function that is compiled or in one that is expanded in it:
`errors_lead_to_their_causes`.

The place that is reported is not always the place of the cause. The function that the error names
is always the one that is compiled, and its line is that of the innermost statement around the
cause, with one exception: in the condition of a loop the line is where the loop's first part ends.
`porch_errors_miss_their_causes` has an example of each.
-/

namespace RoomForge.Script

/-! ## Expressions in trees -/

/-- The expressions whose values an expression works on. -/
def Expr.operands : Expr → List Expr
  | .int _ | .str _ | .ident _ => []
  | .call _ args => args
  | .unary _ operand => [operand]
  | .binary _ left right => [left, right]

/-- `Expr.Part used expr used' part` says that `part` stands in `expr`, or is all of it. The flags
say whether the values of `expr` and `part` are used. -/
inductive Expr.Part : Bool → Expr → Bool → Expr → Prop where
  | whole (used : Bool) (expr : Expr) : Part used expr used expr
  | operand {used used' : Bool} {expr inner part : Expr} (hinner : inner ∈ expr.operands)
      (h : Part true inner used' part) : Part used expr used' part

/-- The expressions that stand in a statement and in no statement inside of it, and whether their
values are used. -/
def Stmt.exprs : Stmt → List (Bool × Expr)
  | .var _ _ init => init.toList.map fun init => (true, init)
  | .assign _ _ value => [(true, value)]
  | .eval _ expr => [(false, expr)]
  | .ifElse _ cond .. | .whileLoop _ cond _ => [(true, cond)]
  | .forLoop _ _ cond .. => cond.toList.map fun cond => (true, cond)
  | .block .. | .const .. | .breakLoop _ | .continueLoop _ | .leave _ => []

end RoomForge.Script

namespace RoomForge.Code

open RoomForge.Script

/-! ## Faults -/

namespace Meaning

/-- How many arguments a call takes, if the name can be called. -/
def arity? : Meaning → Option Nat
  | .builtin found => some found.arity
  | .routine _ => some 0
  | .constant _ | .slot _ | .global _ => none

/-- Whether a name can be assigned to. -/
def isVariable : Meaning → Bool
  | .slot _ | .global _ => true
  | .constant _ | .routine _ | .builtin _ => false

/-- Whether a call leaves a value. -/
def returns : Meaning → Bool
  | .builtin found => found.returns
  | .constant _ | .slot _ | .global _ | .routine _ => false

end Meaning

/-- A number outside of the signed words. -/
def OutOfWord (value : Int) : Prop :=
  ¬ (-32768 ≤ value ∧ value ≤ 32767)

/-- What is wrong with an expression under the names of `scope`, and the error that says so. The
flag says whether the expression's value is used. -/
inductive ExprFault (scope : Scope) (site : Site) : Bool → Expr → CompileError → Prop where
  | number {used : Bool} {value : Int} (h : OutOfWord value) :
      ExprFault scope site used (.int value) (.notWord site value)
  | constant {used : Bool} {name : String} {value : Int}
      (hname : scope.resolve? name = some (.constant value)) (h : OutOfWord value) :
      ExprFault scope site used (.ident name) (.notWord site value)
  | unknown {used : Bool} {name : String} (hname : scope.resolve? name = none) :
      ExprFault scope site used (.ident name) (.unresolved site name)
  | notCalled {used : Bool} {name : String} {meaning : Meaning} {arity : Nat}
      (hname : scope.resolve? name = some meaning) (harity : meaning.arity? = some arity) :
      ExprFault scope site used (.ident name) (.misuse site (.notCalled name))
  | unknownCall {used : Bool} {name : String} {args : List Expr}
      (hname : scope.resolve? name = none) :
      ExprFault scope site used (.call name args) (.unresolved site name)
  | notFunction {used : Bool} {name : String} {args : List Expr} {meaning : Meaning}
      (hname : scope.resolve? name = some meaning) (harity : meaning.arity? = none) :
      ExprFault scope site used (.call name args) (.misuse site (.notFunction name))
  | arity {used : Bool} {name : String} {args : List Expr} {meaning : Meaning} {arity : Nat}
      (hname : scope.resolve? name = some meaning) (harity : meaning.arity? = some arity)
      (h : args.length ≠ arity) :
      ExprFault scope site used (.call name args) (.arity site name arity args.length)
  | unnumbered {used : Bool} {name : String} {routine : Routine}
      (hname : scope.resolve? name = some (.routine routine))
      (hinlined : routine.isInlined = false) (hnumber : routine.number = none) :
      ExprFault scope site used (.call name []) (.misuse site (.unnumbered name))
  | noValue {name : String} {args : List Expr} {meaning : Meaning}
      (hname : scope.resolve? name = some meaning) (harity : meaning.arity? = some args.length)
      (hreturns : meaning.returns = false) :
      ExprFault scope site true (.call name args) (.noValue site name)

/-- What is wrong with a statement, or with an expression in it and in no statement inside of it,
under the names of `scope`, and the error that says so. -/
inductive StmtFault (scope : Scope) (site : Site) : Stmt → CompileError → Prop where
  | unknown {line : Nat} {name : String} {value : Expr} (hname : scope.resolve? name = none) :
      StmtFault scope site (.assign line name value) (.unresolved site name)
  | assigned {line : Nat} {name : String} {value : Expr} {meaning : Meaning}
      (hname : scope.resolve? name = some meaning) (h : meaning.isVariable = false) :
      StmtFault scope site (.assign line name value) (.misuse site (.assigned name))
  | breakOutside {line : Nat} (h : scope.inLoop = false) :
      StmtFault scope site (.breakLoop line) (.misuse site .breakOutside)
  | continueOutside {line : Nat} (h : scope.inLoop = false) :
      StmtFault scope site (.continueLoop line) (.misuse site .continueOutside)
  | expr {stmt : Stmt} {used used' : Bool} {expr part : Expr} {error : CompileError}
      (hexpr : (used, expr) ∈ stmt.exprs) (hpart : expr.Part used used' part)
      (hfault : ExprFault scope site used' part error) : StmtFault scope site stmt error

/-! ## Statements in trees -/

/-- The names behind a statement, which may declare one. -/
def NamesBehind (scope : Scope) : Stmt → Scope → Prop
  | .var _ name _, names => ∃ slot, names = scope.declareLocal name slot
  | .const _ name value, names => names = scope.declareConst ⟨name, value⟩
  | _, names => names = scope

/-- The names behind a row of statements. -/
inductive NamesBehindAll : Scope → List Stmt → Scope → Prop where
  | nil (scope : Scope) : NamesBehindAll scope [] scope
  | cons {scope middle names : Scope} {stmt : Stmt} {rest : List Stmt}
      (hstmt : NamesBehind scope stmt middle) (hrest : NamesBehindAll middle rest names) :
      NamesBehindAll scope (stmt :: rest) names

/-- The names that the expressions of a statement see. The condition of a loop sees what the loop's
first part declares. -/
def Sees (scope : Scope) : Stmt → Scope → Prop
  | .forLoop _ init .., names => NamesBehindAll (scope.push .block) init.toList names
  | _, names => names = scope

/-- `Reaches scope stmt names inner` says that `inner` stands in `stmt`, or is all of it, and that
its expressions see `names` if `stmt` stands behind the names of `scope`. -/
inductive Reaches : Scope → Stmt → Scope → Stmt → Prop where
  | self {scope names : Scope} {stmt : Stmt} (h : Sees scope stmt names) :
      Reaches scope stmt names stmt
  | block {line : Nat} {scope middle names : Scope} {body before rest : List Stmt}
      {stmt inner : Stmt} (hbody : body = before ++ stmt :: rest)
      (hbefore : NamesBehindAll (scope.push .block) before middle)
      (h : Reaches middle stmt names inner) : Reaches scope (.block line body) names inner
  | yes {line : Nat} {scope names : Scope} {cond : Expr} {yes inner : Stmt} {no : Option Stmt}
      (h : Reaches (scope.push .block) yes names inner) :
      Reaches scope (.ifElse line cond yes no) names inner
  | no {line : Nat} {scope names : Scope} {cond : Expr} {yes no inner : Stmt}
      (h : Reaches (scope.push .block) no names inner) :
      Reaches scope (.ifElse line cond yes (some no)) names inner
  | whileBody {line : Nat} {scope names : Scope} {cond : Expr} {body inner : Stmt}
      (h : Reaches (scope.push .loop) body names inner) :
      Reaches scope (.whileLoop line cond body) names inner
  | init {line : Nat} {scope names : Scope} {init body inner : Stmt} {step : Option Stmt}
      {cond : Option Expr} (h : Reaches (scope.push .block) init names inner) :
      Reaches scope (.forLoop line (some init) cond step body) names inner
  | forBody {line : Nat} {scope head names : Scope} {init step : Option Stmt} {cond : Option Expr}
      {body inner : Stmt} (hinit : NamesBehindAll (scope.push .block) init.toList head)
      (h : Reaches (head.push .loop) body names inner) :
      Reaches scope (.forLoop line init cond step body) names inner
  | step {line : Nat} {scope head names : Scope} {init : Option Stmt} {cond : Option Expr}
      {step body inner : Stmt} (hinit : NamesBehindAll (scope.push .block) init.toList head)
      (h : Reaches head step names inner) :
      Reaches scope (.forLoop line init cond (some step) body) names inner

theorem Reaches.block_cases {scope names : Scope} {line : Nat} {body : List Stmt} {inner : Stmt}
    (h : Reaches scope (.block line body) names inner) :
    inner = .block line body ∨ ∃ stmt ∈ body, ∃ middle, Reaches middle stmt names inner := by
  cases h with
  | self => exact .inl rfl
  | block hbody _ h => exact .inr ⟨_, by simp [hbody], _, h⟩

/-- The line that a fault of a statement is reported at. A loop's condition is compiled behind the
loop's first part, and the line is where that part ends. -/
def faultLine : Stmt → Nat
  | .forLoop line init .. => (lastLine? init).getD line
  | stmt => stmt.line

/-! ## What successful compilations say -/

section

variable {setting : Setting} {scope : Scope} {line next : Nat}

theorem namesBehind_of_compileStmt {stmt : Stmt} {compiled : StmtCode}
    (h : compileStmt setting stmt scope next = .ok compiled) :
    NamesBehind scope stmt compiled.scope := by
  cases stmt with
  | block line body =>
    obtain ⟨inner, -, rfl⟩ := compileStmt_block_ok h
    rfl
  | var line name init =>
    obtain ⟨slot, code, behind, -, -, rfl⟩ := compileStmt_var_ok h
    exact ⟨slot, rfl⟩
  | const line name value =>
    obtain rfl := compileStmt_const_ok h
    rfl
  | assign line name value =>
    obtain ⟨store, code, behind, -, -, rfl⟩ := compileStmt_assign_ok h
    rfl
  | eval line expr =>
    obtain ⟨inner, -, rfl⟩ := compileStmt_eval_ok h
    rfl
  | ifElse line cond yes no =>
    obtain ⟨condCode, middle, yesCode, noCode, last, -, -, -, rfl⟩ := compileStmt_ifElse_ok h
    rfl
  | whileLoop line cond body =>
    obtain ⟨condCode, middle, bodyCode, -, -, rfl⟩ := compileStmt_whileLoop_ok h
    rfl
  | forLoop line init cond step body =>
    obtain ⟨initCode, head, condLine, condCode, middle, bodyCode, stepCode, last, -, -, -, -,
      rfl⟩ := compileStmt_forLoop_ok h
    rfl
  | breakLoop line =>
    obtain ⟨-, rfl⟩ := compileStmt_breakLoop_ok h
    rfl
  | continueLoop line =>
    obtain ⟨-, rfl⟩ := compileStmt_continueLoop_ok h
    rfl
  | leave line =>
    obtain rfl := compileStmt_leave_ok h
    rfl

theorem namesBehindAll_of_compileOptional {choice : Option Stmt} {code : Option Fragment}
    {compiled : StmtCode}
    (h : compileOptional setting choice scope next = .ok (code, compiled)) :
    NamesBehindAll scope choice.toList compiled.scope := by
  cases choice with
  | none =>
    obtain ⟨-, rfl⟩ := compileOptional_none_ok h
    exact .nil scope
  | some stmt =>
    exact .cons (namesBehind_of_compileStmt (compileOptional_some_ok h).1) (.nil _)

/-- Only calls can leave no value. -/
theorem call_of_value_eq_false {expr : Expr} {compiled : ExprCode}
    (h : compileExpr setting scope line expr next = .ok compiled)
    (hvalue : compiled.value = false) :
    ∃ name args meaning, expr = .call name args ∧ scope.resolve? name = some meaning ∧
      meaning.arity? = some args.length ∧ meaning.returns = false := by
  cases expr with
  | int value =>
    obtain ⟨push, -, rfl⟩ := compileExpr_int_ok h
    exact absurd hvalue (by simp)
  | str text =>
    obtain rfl := compileExpr_str_ok h
    exact absurd hvalue (by simp)
  | ident name =>
    obtain ⟨push, -, rfl⟩ := compileExpr_ident_ok h
    exact absurd hvalue (by simp)
  | unary op operand =>
    obtain ⟨code, -, -, hleft⟩ := compileExpr_unary_ok h
    exact absurd hvalue (by simp [hleft])
  | binary op left right =>
    obtain ⟨leftCode, middle, rightCode, -, -, -, hleft⟩ := compileExpr_binary_ok h
    exact absurd hvalue (by simp [hleft])
  | call name args =>
    refine ⟨name, args, ?_⟩
    rcases compileExpr_call_ok h with ⟨builtin, back, hname, hargc, -, -, hreturns⟩ |
      ⟨routine, hname, hcall⟩
    · refine ⟨.builtin builtin, rfl, hname, ?_, hreturns.symm.trans hvalue⟩
      exact congrArg some hargc.symm
    · refine ⟨.routine routine, rfl, hname, ?_, rfl⟩
      exact congrArg some (callRoutine_ok hcall).1.symm

end

/-! ## Errors and their causes -/

/-- An error is accounted for: it names no place, its cause is `here`, or it comes from the
expansion of a function. -/
def Setting.Accounts (setting : Setting) (here : CompileError → Prop) (error : CompileError) :
    Prop :=
  error.site? = none ∨ here error ∨ ∃ callee next, setting.expand callee next = .error error

/-- All the errors of a computation are accounted for. -/
abbrev Explains {α : Type} (setting : Setting) (here : CompileError → Prop)
    (result : Except CompileError α) : Prop :=
  Avoids (fun error => ¬ setting.Accounts here error) result

/-- The error has its cause in the expression. -/
def InExpr (scope : Scope) (site : Site) (used : Bool) (expr : Expr) (error : CompileError) :
    Prop :=
  ∃ used' part, expr.Part used used' part ∧ ExprFault scope site used' part error

/-- The error has its cause in the statement, or in one inside of it, and the line of that one. -/
def InStmt (function : String) (scope : Scope) (stmt : Stmt) (error : CompileError) : Prop :=
  ∃ names inner, Reaches scope stmt names inner ∧
    StmtFault names ⟨function, faultLine inner⟩ inner error

section

variable {setting : Setting} {scope : Scope} {line next : Nat} {here : CompileError → Prop}

theorem Explains.mono {α : Type} {there : CompileError → Prop} {result : Except CompileError α}
    (h : Explains setting here result) (himp : ∀ error, here error → there error) :
    Explains setting there result := by
  intro error herror hnot
  refine h error herror fun haccounts => hnot ?_
  exact haccounts.imp_right fun hcause => hcause.imp_left (himp error)

theorem Explains.caused {α : Type} {error : CompileError} (h : here error) :
    Explains setting here (.error error : Except CompileError α) :=
  .error (not_not_intro (.inr (.inl h)))

theorem InExpr.whole {site : Site} {used : Bool} {expr : Expr} {error : CompileError}
    (h : ExprFault scope site used expr error) : InExpr scope site used expr error :=
  ⟨used, expr, .whole used expr, h⟩

theorem InExpr.operand {site : Site} {used : Bool} {expr inner : Expr} {error : CompileError}
    (hinner : inner ∈ expr.operands) (h : InExpr scope site true inner error) :
    InExpr scope site used expr error := by
  obtain ⟨used', part, hpart, hfault⟩ := h
  exact ⟨used', part, .operand hinner hpart, hfault⟩

/-! ## Expressions -/

theorem pushNumber_explains {site : Site} {value : Int}
    (h : OutOfWord value → here (.notWord site value)) :
    Explains setting here (pushNumber site value) := by
  unfold pushNumber
  split
  · exact .ok
  · next hrange => exact .caused (h hrange)

theorem pushName_explains (used : Bool) (site : Site) (name : String) :
    Explains setting (InExpr scope site used (.ident name)) (pushName site scope name) := by
  unfold pushName
  split
  · next hname => exact pushNumber_explains fun hrange => .whole (.constant hname hrange)
  · exact .ok
  · exact .ok
  · next hname => exact .caused (.whole (.notCalled hname rfl))
  · next hname => exact .caused (.whole (.notCalled hname rfl))
  · next hname => exact .caused (.whole (.unknown hname))

/-- The errors of the expression are accounted for. -/
def ExprExplains (setting : Setting) (scope : Scope) (line : Nat) (expr : Expr) : Prop :=
  ∀ used next, Explains setting (InExpr scope (setting.site line) used expr)
    (compileExpr setting scope line expr next)

/-- An operand inside of a longer computation. -/
theorem ExprExplains.bind {α : Type} {expr : Expr} (h : ExprExplains setting scope line expr)
    (himp : ∀ error, InExpr scope (setting.site line) true expr error → here error)
    {rest : Fragment × Nat → Except CompileError α}
    (hrest : ∀ piece, Explains setting here (rest piece)) :
    Explains setting here (compileExpr setting scope line expr next >>= fun compiled =>
      requireValue (setting.site line) expr compiled >>= rest) := by
  refine ((h true next).mono himp).bind fun compiled hcompiled => ?_
  refine Avoids.bind ?_ fun piece _ => hrest piece
  unfold requireValue
  split
  · exact .ok
  · next hvalue =>
    obtain ⟨name, args, meaning, rfl, hname, harity, hreturns⟩ :=
      call_of_value_eq_false hcompiled (by simpa using hvalue)
    exact Explains.caused (himp _ (.whole (.noValue hname harity hreturns)))

theorem compileArgs_explains {expr : Expr} {args : List Expr} (hargs : args ⊆ expr.operands)
    (h : ∀ arg ∈ args, ExprExplains setting scope line arg) (used : Bool) (next : Nat) :
    Explains setting (InExpr scope (setting.site line) used expr)
      (compileArgs setting scope line args next) := by
  induction args generalizing next with
  | nil =>
    rw [compileArgs]
    exact .ok
  | cons arg rest ih =>
    rw [List.forall_mem_cons] at h
    rw [List.cons_subset] at hargs
    rw [compileArgs]
    refine h.1.bind (fun _ => .operand hargs.1) fun piece => ?_
    exact (ih hargs.2 h.2 piece.2).bind fun _ _ => .ok

theorem callRoutine_explains {name : String} {routine : Routine}
    (hname : scope.resolve? name = some (.routine routine)) (used : Bool) (site : Site)
    (args : List Expr) (next : Nat) :
    Explains setting (InExpr scope site used (.call name args))
      (callRoutine setting site name routine args.length next) := by
  unfold callRoutine
  split
  · next hargs => exact .caused (.whole (.arity hname rfl hargs))
  · next hargs =>
    split
    · refine Avoids.bind ?_ fun piece _ => .ok
      intro error herror hnot
      exact hnot (.inr (.inr ⟨routine, next, herror⟩))
    · next hinlined =>
      split
      · exact .ok
      · next hnumber =>
        obtain rfl := List.eq_nil_of_length_eq_zero (not_not.mp hargs)
        exact .caused (.whole (.unnumbered hname (by simpa using hinlined) hnumber))

theorem exprExplains (setting : Setting) (scope : Scope) (line : Nat) (expr : Expr) :
    ExprExplains setting scope line expr := by
  induction expr using Expr.induction with
  | int value =>
    intro used next
    rw [compileExpr]
    refine Avoids.bind ?_ fun push _ => .ok
    exact pushNumber_explains fun hrange => .whole (.number hrange)
  | str text =>
    intro used next
    rw [compileExpr]
    exact .ok
  | ident name =>
    intro used next
    rw [compileExpr]
    exact (pushName_explains used _ name).bind fun push _ => .ok
  | call name args ih =>
    intro used next
    rw [compileExpr]
    split
    · next builtin hname =>
      split
      · next hargs => exact .caused (.whole (.arity hname rfl hargs))
      · exact (compileArgs_explains (List.Subset.refl args) ih used next).bind fun _ _ => .ok
    · next routine hname => exact callRoutine_explains hname used _ args next
    · next meaning hengine hroutine hname =>
      refine .caused (.whole (.notFunction hname ?_))
      cases meaning with
      | builtin found => exact absurd rfl (hengine found)
      | routine found => exact absurd rfl (hroutine found)
      | constant | slot | global => rfl
    · next hname => exact .caused (.whole (.unknownCall hname))
  | unary op operand ih =>
    intro used next
    rw [compileExpr]
    exact ih.bind (fun _ => .operand List.mem_cons_self) fun piece => .ok
  | binary op left right ihLeft ihRight =>
    intro used next
    rw [compileExpr]
    refine ihLeft.bind (fun _ => .operand List.mem_cons_self) fun piece => ?_
    refine ihRight.bind (fun _ => .operand ?_) fun piece => .ok
    exact List.mem_cons_of_mem left List.mem_cons_self

theorem compileValue_explains {expr : Expr}
    (himp : ∀ error, InExpr scope (setting.site line) true expr error → here error) (next : Nat) :
    Explains setting here (compileValue setting scope line expr next) := by
  unfold compileValue
  exact (exprExplains setting scope line expr).bind himp fun piece => .ok

theorem compileInit_explains {init : Option Expr}
    (himp : ∀ expr ∈ init, ∀ error, InExpr scope (setting.site line) true expr error → here error)
    (next : Nat) : Explains setting here (compileInit setting scope line init next) := by
  cases init with
  | none => exact .ok
  | some init => exact compileValue_explains (himp init rfl) next

theorem compileCond_explains {cond : Option Expr}
    (himp : ∀ expr ∈ cond, ∀ error, InExpr scope (setting.site line) true expr error → here error)
    (next : Nat) : Explains setting here (compileCond setting scope line cond next) := by
  cases cond with
  | none => exact .ok
  | some cond => exact (compileValue_explains (himp cond rfl) next).bind fun piece _ => .ok

/-! ## Statements -/

theorem storeName_explains {site : Site} {name : String}
    (hunknown : scope.resolve? name = none → here (.unresolved site name))
    (hassigned : ∀ meaning, scope.resolve? name = some meaning → meaning.isVariable = false →
      here (.misuse site (.assigned name))) :
    Explains setting here (storeName site scope name) := by
  unfold storeName
  split
  · exact .ok
  · exact .ok
  · next meaning hslot hglobal hname =>
    refine .caused (hassigned meaning hname ?_)
    cases meaning with
    | slot index => exact absurd rfl (hslot index)
    | global id => exact absurd rfl (hglobal id)
    | constant | routine | builtin => rfl
  · next hname => exact .caused (hunknown hname)

theorem newSlot_explains (function : String) (next : Nat) :
    Explains setting here (newSlot function next) :=
  newSlot_avoids (not_not_intro (.inl rfl)) next

/-- The error has its cause in one of the statements. -/
def InBody (function : String) (scope : Scope) (body : List Stmt) (error : CompileError) : Prop :=
  ∃ before stmt rest names, body = before ++ stmt :: rest ∧ NamesBehindAll scope before names ∧
    InStmt function names stmt error

namespace InStmt

variable {function : String} {error : CompileError}

theorem own {stmt : Stmt} {names : Scope} (hsees : Sees scope stmt names)
    (h : StmtFault names ⟨function, faultLine stmt⟩ stmt error) :
    InStmt function scope stmt error :=
  ⟨names, stmt, .self hsees, h⟩

theorem ofExpr {stmt : Stmt} {names : Scope} (hsees : Sees scope stmt names) {used : Bool}
    {expr : Expr} (hexpr : (used, expr) ∈ stmt.exprs)
    (h : InExpr names ⟨function, faultLine stmt⟩ used expr error) :
    InStmt function scope stmt error := by
  obtain ⟨used', part, hpart, hfault⟩ := h
  exact own hsees (.expr hexpr hpart hfault)

theorem inside {stmt outer : Stmt} {around : Scope} (h : InStmt function scope stmt error)
    (hstep : ∀ names inner, Reaches scope stmt names inner → Reaches around outer names inner) :
    InStmt function around outer error := by
  obtain ⟨names, inner, hreaches, hfault⟩ := h
  exact ⟨names, inner, hstep names inner hreaches, hfault⟩

end InStmt

/-- The errors of the statement are accounted for. -/
def StmtExplains (setting : Setting) (stmt : Stmt) : Prop :=
  ∀ scope next, Explains setting (InStmt setting.function scope stmt)
    (compileStmt setting stmt scope next)

theorem compileStmts_explains {body : List Stmt} (h : ∀ stmt ∈ body, StmtExplains setting stmt)
    (scope : Scope) (next : Nat) (taken : List Fragment) :
    Explains setting (InBody setting.function scope body)
      (compileStmts setting body scope next taken) := by
  induction body generalizing scope next taken with
  | nil =>
    rw [compileStmts]
    exact .ok
  | cons stmt rest ih =>
    rw [List.forall_mem_cons] at h
    rw [compileStmts]
    refine ((h.1 scope next).mono ?_).bind fun compiled hcompiled => ?_
    · intro error herror
      exact ⟨[], stmt, rest, scope, rfl, .nil scope, herror⟩
    · refine Explains.mono (ih h.2 compiled.scope compiled.next _) ?_
      rintro error ⟨before, inner, after, names, rfl, hbefore, herror⟩
      have hstmt := namesBehind_of_compileStmt hcompiled
      exact ⟨stmt :: before, inner, after, names, rfl, .cons hstmt hbefore, herror⟩

theorem compileOptional_explains {choice : Option Stmt}
    (h : ∀ stmt ∈ choice, StmtExplains setting stmt)
    (himp : ∀ stmt ∈ choice, ∀ error, InStmt setting.function scope stmt error → here error)
    (next : Nat) : Explains setting here (compileOptional setting choice scope next) := by
  cases choice with
  | none =>
    rw [compileOptional]
    exact .ok
  | some stmt =>
    rw [compileOptional]
    exact ((h stmt rfl scope next).mono (himp stmt rfl)).bind fun compiled _ => .ok

theorem stmtExplains (setting : Setting) (stmt : Stmt) : StmtExplains setting stmt := by
  induction stmt using Stmt.induction with
  | block line body ih =>
    intro scope next
    rw [compileStmt]
    refine Explains.mono (compileStmts_explains ih _ next []) ?_ |>.bind fun inner _ => .ok
    rintro error ⟨before, stmt, rest, names, hbody, hbefore, herror⟩
    exact herror.inside fun _ _ => .block hbody hbefore
  | var line name init =>
    intro scope next
    rw [compileStmt]
    refine (newSlot_explains _ next).bind fun slot _ => ?_
    refine (compileInit_explains ?_ (next + 1)).bind fun piece _ => .ok
    rintro expr hexpr error herror
    exact .ofExpr rfl (by simp [Stmt.exprs, Option.mem_def.mp hexpr]) herror
  | const line name value =>
    intro scope next
    rw [compileStmt]
    exact .ok
  | assign line name value =>
    intro scope next
    rw [compileStmt]
    refine (storeName_explains ?_ ?_).bind fun store _ => ?_
    · exact fun hname => .own rfl (.unknown hname)
    · exact fun meaning hname hvariable => .own rfl (.assigned hname hvariable)
    · refine (compileValue_explains ?_ next).bind fun piece _ => .ok
      exact fun error herror => .ofExpr rfl List.mem_cons_self herror
  | eval line expr =>
    intro scope next
    rw [compileStmt]
    refine Explains.mono (exprExplains setting scope line expr false next) ?_ |>.bind
      fun compiled _ => .ok
    exact fun error herror => .ofExpr rfl List.mem_cons_self herror
  | ifElse line cond yes no ihYes ihNo =>
    intro scope next
    rw [compileStmt]
    refine (compileValue_explains ?_ next).bind fun test _ => ?_
    · exact fun error herror => .ofExpr rfl List.mem_cons_self herror
    refine ((ihYes _ test.2).mono ?_).bind fun first _ => ?_
    · exact fun error herror => herror.inside fun _ _ => .yes
    refine (compileOptional_explains ihNo ?_ first.next).bind fun second _ => .ok
    rintro stmt hstmt error herror
    obtain rfl := Option.mem_def.mp hstmt
    exact herror.inside fun _ _ => .no
  | whileLoop line cond body ih =>
    intro scope next
    rw [compileStmt]
    refine (compileValue_explains ?_ next).bind fun test _ => ?_
    · exact fun error herror => .ofExpr rfl List.mem_cons_self herror
    refine ((ih _ test.2).mono ?_).bind fun inside _ => .ok
    exact fun error herror => herror.inside fun _ _ => .whileBody
  | forLoop line init cond step body ihInit ihStep ihBody =>
    intro scope next
    rw [compileStmt]
    refine (compileOptional_explains ihInit ?_ next).bind ?_
    · rintro stmt hstmt error herror
      obtain rfl := Option.mem_def.mp hstmt
      exact herror.inside fun _ _ => .init
    rintro ⟨initCode, head⟩ hhead
    have hsees := namesBehindAll_of_compileOptional hhead
    refine (compileCond_explains ?_ head.next).bind fun test _ => ?_
    · rintro expr hexpr error herror
      exact .ofExpr hsees (by simp [Stmt.exprs, Option.mem_def.mp hexpr]) herror
    refine ((ihBody _ test.2).mono ?_).bind fun inside _ => ?_
    · exact fun error herror => herror.inside fun _ _ => .forBody hsees
    refine (compileOptional_explains ihStep ?_ inside.next).bind fun last _ => .ok
    rintro stmt hstmt error herror
    obtain rfl := Option.mem_def.mp hstmt
    exact herror.inside fun _ _ => .step hsees
  | breakLoop line =>
    intro scope next
    rw [compileStmt]
    split
    · exact .ok
    · next hloop => exact .caused (.own rfl (.breakOutside (by simpa using hloop)))
  | continueLoop line =>
    intro scope next
    rw [compileStmt]
    split
    · exact .ok
    · next hloop => exact .caused (.own rfl (.continueOutside (by simpa using hloop)))
  | leave line =>
    intro scope next
    rw [compileStmt]
    exact .ok

end

/-! ## Functions -/

theorem ExprFault.site?_eq {scope : Scope} {site : Site} {used : Bool} {expr : Expr}
    {error : CompileError} (h : ExprFault scope site used expr error) :
    error.site? = some site := by
  cases h <;> rfl

theorem StmtFault.site?_eq {scope : Scope} {site : Site} {stmt : Stmt} {error : CompileError}
    (h : StmtFault scope site stmt error) : error.site? = some site := by
  cases h with
  | expr _ _ hfault => exact hfault.site?_eq
  | _ => rfl

section

variable {room : Scope} {function : String} {error : CompileError}

/-- An error in a body has its cause in the body, or comes from a function that the body calls. -/
theorem body_error {inlined : Bool} {expand : Expansion} {routine : Routine} {next : Nat}
    (h : compileStmt ⟨function, inlined, expand⟩ routine.body (room.push .function) next =
      .error error) (hsite : error.site? ≠ none) :
    InStmt function (room.push .function) routine.body error ∨
      ∃ callee slot, Inlines room routine callee ∧ expand callee slot = .error error := by
  classical
  -- The body only asks for its callees, so all other expansions may as well fail without a place.
  let watched : Expansion := fun callee slot =>
    if Inlines room routine callee then expand callee slot
    else .error (.recursiveInline callee.name)
  have hagree : ∀ callee ∈ calleesOfStmt routine.body room.inlined?,
      watched callee = expand callee := by
    intro callee hcallee
    funext slot
    exact if_pos hcallee
  have hwatched := (body_asks room function inlined routine next).congr hagree
  rcases not_not.mp (stmtExplains _ _ _ _ error (hwatched.trans h)) with
    hnone | hhere | ⟨callee, slot, hexpand⟩
  · exact absurd hnone hsite
  · exact .inl hhere
  · have hexpand : watched callee slot = .error error := hexpand
    by_cases hcallee : Inlines room routine callee
    · exact .inr ⟨callee, slot, hcallee, (if_pos hcallee).symm.trans hexpand⟩
    · obtain rfl := Except.error.inj ((if_neg hcallee).symm.trans hexpand)
      exact absurd rfl hsite

/-- An error in an expansion has its cause in one of the functions that are expanded. -/
theorem expandCall_error {depth next : Nat} {calls : List String} {callee : Routine}
    (h : expandCall function room depth calls callee next = .error error)
    (hsite : error.site? ≠ none) :
    ∃ owner, Relation.ReflTransGen (Inlines room) callee owner ∧
      InStmt function (room.push .function) owner.body error := by
  induction depth generalizing calls callee next with
  | zero =>
    rw [expandCall] at h
    obtain rfl := Except.error.inj h
    exact absurd rfl hsite
  | succ depth ih =>
    rw [expandCall] at h
    split at h
    · obtain rfl := Except.error.inj h
      exact absurd rfl hsite
    · rcases bind_eq_error_iff.mp h with hbody | ⟨body, -, hrest⟩
      · rcases body_error hbody hsite with hhere | ⟨inner, slot, hcall, hinner⟩
        · exact ⟨callee, .refl, hhere⟩
        · obtain ⟨owner, hreach, howner⟩ := ih hinner
          exact ⟨owner, .head hcall hreach, howner⟩
      · exact absurd hrest (by simp)

theorem compileBytes_error {routine : Routine} (h : compileBytes room routine = .error error)
    (hsite : error.site? ≠ none) :
    ∃ owner, Relation.ReflTransGen (Inlines room) routine owner ∧
      InStmt routine.name (room.push .function) owner.body error := by
  rcases bind_eq_error_iff.mp h with hlisting | ⟨listing, -, hencode⟩
  · rcases bind_eq_error_iff.mp hlisting with hbody | ⟨body, -, hlink⟩
    · rcases body_error hbody hsite with hhere | ⟨callee, slot, hcall, hcallee⟩
      · exact ⟨routine, .refl, hhere⟩
      · obtain ⟨owner, hreach, howner⟩ := expandCall_error hcallee hsite
        exact ⟨owner, .head hcall hreach, howner⟩
    · split at hlink
      · exact absurd hlink (by simp)
      · obtain rfl := Except.error.inj hlink
        exact absurd rfl hsite
  · have havoids : Avoids (fun error : CompileError => error.site? ≠ none)
        (encode routine.name listing.instrs) :=
      encode_avoids_unless_jumps (not_not_intro rfl) (not_not_intro rfl) _
    exact absurd hsite (havoids error hencode)

end

theorem faultLine_eq {stmt : Stmt}
    (h : ∀ line init cond step body, stmt = .forLoop line (some init) cond step body →
      lastLine init = line) : faultLine stmt = stmt.line := by
  cases stmt with
  | forLoop line init cond step body =>
    cases init with
    | none => rfl
    | some init => exact h line init cond step body rfl
  | _ => rfl

/-- The cause of an error stands in the body of `owner`, and the line of `site` is that of the
innermost statement around it. -/
def PointsInto (room : Scope) (owner : Routine) (site : Site) (error : CompileError) : Prop :=
  ∃ names stmt, Reaches (room.push .function) owner.body names stmt ∧
    StmtFault names site stmt error ∧ site.line = stmt.line

/-- An error with a place names the function that is compiled. Its cause stands in that function or
in one that is expanded in it, and its line is that of the innermost statement around the cause, or
where the first part of a loop ends whose condition holds the cause. So the place is right if
nothing is expanded and the first parts of loops end on the lines of the loops. -/
theorem errors_lead_to_their_causes {room : Scope} {routine : Routine} {error : CompileError}
    {site : Site} (h : compileBytes room routine = .error error)
    (hsite : error.site? = some site) :
    site.function = routine.name ∧
    (∃ owner names stmt, Relation.ReflTransGen (Inlines room) routine owner ∧
      Reaches (room.push .function) owner.body names stmt ∧ StmtFault names site stmt error ∧
      site.line = faultLine stmt) ∧
    ((∀ callee, ¬ Inlines room routine callee) →
      (∀ names line init cond step body,
        Reaches (room.push .function) routine.body names
          (.forLoop line (some init) cond step body) → lastLine init = line) →
      PointsInto room routine site error) := by
  obtain ⟨owner, hreach, names, stmt, hstmt, hfault⟩ := compileBytes_error h (by simp [hsite])
  obtain rfl := Option.some.inj (hfault.site?_eq.symm.trans hsite)
  refine ⟨rfl, ⟨owner, names, stmt, hreach, hstmt, hfault, rfl⟩, fun halone hheads => ?_⟩
  rcases hreach.cases_head with rfl | ⟨callee, hcall, -⟩
  · refine ⟨names, stmt, hstmt, hfault, faultLine_eq ?_⟩
    rintro line init cond step body rfl
    exact hheads names line init cond step body hstmt
  · exact absurd hcall (halone callee)

/-- A loop whose condition uses a call that leaves no value. -/
def stroll : Routine :=
  { name := "stroll", kind := .normal, line := 1, number := some 200,
    body := .block 1 [.forLoop 2 (some (.var 2 "i" none))
      (some (.binary .lt (.ident "i") (.call "stroll" []))) none (.block 3 [])] }

theorem stroll_leads_to_its_cause :
    compileBytes (.ofRoom [] [stroll]) stroll = .error (.noValue ⟨"stroll", 2⟩ "stroll") ∧
      PointsInto (.ofRoom [] [stroll]) stroll ⟨"stroll", 2⟩ (.noValue ⟨"stroll", 2⟩ "stroll") := by
  have herror : compileBytes (.ofRoom [] [stroll]) stroll =
      .error (.noValue ⟨"stroll", 2⟩ "stroll") := by decide +kernel
  have halone : calleesOfStmt stroll.body (Scope.inlined? (.ofRoom [] [stroll])) = [] :=
    List.eq_nil_of_length_eq_zero (by decide +kernel)
  refine ⟨herror, (errors_lead_to_their_causes herror rfl).2.2 ?_ ?_⟩
  · intro callee hcallee
    rw [Inlines, halone] at hcallee
    exact List.not_mem_nil hcallee
  · intro names line init cond step body h
    obtain heq | ⟨stmt, hstmt, middle, h⟩ := h.block_cases
    · exact absurd heq (by simp)
    · obtain rfl := List.mem_singleton.mp hstmt
      cases h with
      | self => rfl
      | init h => cases h
      | forBody _ h =>
        obtain heq | ⟨stmt, hstmt, -⟩ := h.block_cases
        · exact absurd heq (by simp)
        · exact absurd hstmt List.not_mem_nil

/-- An inlined function that uses an unknown name. -/
def ring : Routine :=
  { name := "ring", kind := .inlined, line := 1, body := .block 1 [.eval 2 (.ident "bell")] }

/-- A function in which `ring` is expanded. -/
def visit : Routine :=
  { name := "visit", kind := .normal, line := 3, body := .block 3 [.eval 3 (.call "ring" [])] }

/-- A loop whose first part stands on a line of its own, and whose condition is an unknown name. -/
def pace : Routine :=
  { name := "pace", kind := .normal, line := 4,
    body := .block 4 [.forLoop 4 (some (.var 5 "i" none)) (some (.ident "bell")) none
      (.block 5 [])] }

/-- The names of a room with these functions. -/
def porch : Scope :=
  .ofRoom [] [ring, visit, pace]

/-- The cause of the first error stands in another function than the one that is named; that of the
second one stands in a loop that starts on another line. -/
theorem porch_errors_miss_their_causes :
    (compileBytes porch visit = .error (.unresolved ⟨"visit", 2⟩ "bell") ∧
      ¬ PointsInto porch visit ⟨"visit", 2⟩ (.unresolved ⟨"visit", 2⟩ "bell") ∧
      PointsInto porch ring ⟨"visit", 2⟩ (.unresolved ⟨"visit", 2⟩ "bell")) ∧
    compileBytes porch pace = .error (.unresolved ⟨"pace", 5⟩ "bell") ∧
      ¬ PointsInto porch pace ⟨"pace", 5⟩ (.unresolved ⟨"pace", 5⟩ "bell") := by
  refine ⟨⟨by decide +kernel, ?_, ?_⟩, by decide +kernel, ?_⟩
  · rintro ⟨names, inner, hreaches, -, hline⟩
    obtain rfl | ⟨stmt, hstmt, middle, h⟩ := hreaches.block_cases
    · exact absurd hline (by decide)
    · obtain rfl := List.mem_singleton.mp hstmt
      cases h
      exact absurd hline (by decide)
  · refine ⟨_, .eval 2 (.ident "bell"), .block rfl (.nil _) (.self rfl), ?_, rfl⟩
    exact .expr List.mem_cons_self (.whole ..) (.unknown (by decide +kernel))
  · rintro ⟨names, inner, hreaches, hfault, hline⟩
    obtain rfl | ⟨stmt, hstmt, middle, h⟩ := hreaches.block_cases
    · exact absurd hline (by decide)
    · obtain rfl := List.mem_singleton.mp hstmt
      cases h with
      | self => exact absurd hline (by decide)
      | init h =>
        cases h
        cases hfault with
        | expr hexpr => exact absurd hexpr List.not_mem_nil
      | forBody _ h =>
        obtain rfl | ⟨stmt, hstmt, -⟩ := h.block_cases
        · cases hfault with
          | expr hexpr => exact absurd hexpr List.not_mem_nil
        · exact absurd hstmt List.not_mem_nil

end RoomForge.Code
