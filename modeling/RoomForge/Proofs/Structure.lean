import RoomForge.Proofs.Emission

set_option autoImplicit false

/-! # How emitted code is put together

All code of a function is made in a few ways: rows of instructions that compute values, choices,
loops, jumps out of them and inlined bodies. What holds of emitted code follows by induction on
these ways, with no regard to names, slots and faults. `compileBody_structured` says that compiled
bodies are made so; `Proofs.StackDepth` and `Proofs.Jumps` go by it.
-/

namespace RoomForge.Code

open RoomForge.Script

/-- Code without jumps that leaves a number of values. -/
inductive Values : (count : Nat) → Fragment → Prop where
  | nil : Values 0 []
  /-- One more instruction, which finds its operands. -/
  | snoc {count : Nat} {code : Fragment} (hcode : Values count code) (instr : Instr Target)
      (htarget : instr.target? = none) (hstop : instr ≠ .stop) (hpops : instr.pops ≤ count) :
      Values (count - instr.pops + instr.pushes) (code ++ [instr])

/-- Code of statements. It jumps out of itself only to the roles that its place provides: to the end
of an inlined body, and to the end and the next turn of a loop. -/
inductive Structured : (inlined inLoop : Bool) → Fragment → Prop where
  | straight {inlined inLoop : Bool} {code : Fragment} (hcode : Values 0 code) :
      Structured inlined inLoop code
  | append {inlined inLoop : Bool} {first second : Fragment}
      (hfirst : Structured inlined inLoop first) (hsecond : Structured inlined inLoop second) :
      Structured inlined inLoop (first ++ second)
  | choice {inlined inLoop : Bool} {cond yes : Fragment} {no : Option Fragment}
      (hcond : Values 1 cond) (hyes : Structured inlined inLoop yes)
      (hno : ∀ other ∈ no, Structured inlined inLoop other) :
      Structured inlined inLoop (choice cond yes no)
  | testLoop {inlined inLoop : Bool} {cond body : Fragment} (hcond : Values 1 cond)
      (hbody : Structured inlined true body) : Structured inlined inLoop (testLoop cond body)
  | stepLoop {inlined inLoop : Bool} {cond : Option Fragment} {body step : Fragment}
      (hcond : ∀ test ∈ cond, Values 1 test) (hbody : Structured inlined true body)
      (hstep : Structured inlined inLoop step) :
      Structured inlined inLoop (stepLoop cond body step)
  | breakLoop {inlined : Bool} : Structured inlined true [.jump .loopEnd]
  | continueLoop {inlined : Bool} : Structured inlined true [.jump .loopNext]
  | leaveBody {inLoop : Bool} : Structured true inLoop [.jump .bodyEnd]
  | stop {inLoop : Bool} : Structured false inLoop [.stop]
  /-- The body of an inlined function, outside of any loop around the call. -/
  | body {inlined inLoop : Bool} {code : Fragment} (hcode : Structured true false code) :
      Structured inlined inLoop (code.settle (.ofBody code.length))

/-! ## Values -/

namespace Values

/-- A single push. -/
theorem push (instr : Instr Target) (htarget : instr.target? = none) (hstop : instr ≠ .stop)
    (hpops : instr.pops = 0) (hpushes : instr.pushes = 1) : Values 1 [instr] := by
  have h := nil.snoc instr htarget hstop (Nat.le_of_eq hpops)
  rw [hpops, hpushes] at h
  exact h

theorem append {a b : Nat} {first second : Fragment} (hfirst : Values a first)
    (hsecond : Values b second) : Values (a + b) (first ++ second) := by
  induction hsecond with
  | nil => simpa using hfirst
  | @snoc count code _ instr htarget hstop hpops ih =>
    have h := ih.snoc instr htarget hstop (Nat.le_trans hpops (Nat.le_add_left _ _))
    rw [List.append_assoc] at h
    rwa [show a + count - instr.pops + instr.pushes = a + (count - instr.pops + instr.pushes) by
      omega] at h

end Values

/-! ## What the compiler emits -/

/-- Expansions are code of statements, wherever they stand. -/
def Setting.Structured (setting : Setting) : Prop :=
  ∀ routine next code behind, setting.expand routine next = .ok (code, behind) →
    ∀ inlined inLoop, Code.Structured inlined inLoop code

/-- What the code of an expression leaves. -/
def ExprCode.Leaves (compiled : ExprCode) : Prop :=
  if compiled.value then Values 1 compiled.code
  else ∀ inlined inLoop, Structured inlined inLoop compiled.code

variable {setting : Setting} {scope : Scope} {line next : Nat}

theorem pushNumber_values {site : Site} {value : Int} {instr : Instr Target}
    (h : pushNumber site value = .ok instr) : Values 1 [instr] := by
  obtain ⟨rfl, _⟩ := pushNumber_ok h
  exact .push _ rfl (by simp) rfl rfl

theorem pushName_values {site : Site} {name : String} {instr : Instr Target}
    (h : pushName site scope name = .ok instr) : Values 1 [instr] := by
  rcases pushName_ok h with ⟨value, _, hnumber⟩ | ⟨slot, _, rfl⟩ | ⟨id, _, rfl⟩
  · exact pushNumber_values hnumber
  · exact .push _ rfl (by simp) rfl rfl
  · exact .push _ rfl (by simp) rfl rfl

/-- What an operand says about its code. -/
def ExprLeaves (setting : Setting) (expr : Expr) : Prop :=
  ∀ scope line next compiled, compileExpr setting scope line expr next = .ok compiled →
    compiled.Leaves

theorem ExprLeaves.value {expr : Expr} (h : ExprLeaves setting expr) {code : Fragment}
    {behind : Nat} (hvalue : compileValue setting scope line expr next = .ok (code, behind)) :
    Values 1 code := by
  obtain ⟨compiled, hcompiled, hleaves, rfl, rfl⟩ := compileValue_eq_ok_iff.mp hvalue
  have hleft := h scope line next compiled hcompiled
  unfold ExprCode.Leaves at hleft
  rw [if_pos hleaves] at hleft
  exact hleft

theorem compileArgs_values {args : List Expr} (h : ∀ arg ∈ args, ExprLeaves setting arg)
    {back : Fragment} {behind : Nat}
    (hargs : compileArgs setting scope line args next = .ok (back, behind)) :
    Values args.length back.reverse := by
  induction args generalizing next back with
  | nil =>
    rw [compileArgs] at hargs
    obtain ⟨rfl, rfl⟩ := Prod.mk.inj (Except.ok.inj hargs)
    exact .nil
  | cons arg rest ih =>
    obtain ⟨code, middle, restBack, harg, hrest, hback⟩ := compileArgs_cons_ok hargs
    have hfirst := (h arg List.mem_cons_self).value harg
    have hlast := ih (fun other hother => h other (List.mem_cons_of_mem arg hother)) hrest
    rw [hback, List.length_cons, Nat.add_comm]
    exact hfirst.append hlast

/-- A call of the engine takes the arguments and leaves a value if the function returns one. -/
theorem callEngine_leaves {name : String} {builtin : Builtin} {args : Fragment}
    {compiled : ExprCode} (hname : scope.resolve? name = some (.builtin builtin))
    (hargs : Values builtin.arity args)
    (hcode : compiled.code = args ++ [.callBuiltin builtin.id (UInt8.ofNat builtin.arity)])
    (hvalue : compiled.value = builtin.returns) : compiled.Leaves := by
  obtain ⟨harity, hreturns⟩ := builtins_arity_and_returns builtin (mem_builtins_of_resolve? hname)
  obtain ⟨call, hdef⟩ : ∃ call : Instr Target,
      call = .callBuiltin builtin.id (UInt8.ofNat builtin.arity) := ⟨_, rfl⟩
  have hpops : call.pops = builtin.arity := by
    simpa [hdef, Instr.pops] using Nat.mod_eq_of_lt harity
  have hpushes : call.pushes = if compiled.value then 1 else 0 := by
    rw [hdef, Instr.pushes, hreturns, hvalue]
  have hcall := hargs.snoc call (by rw [hdef]; rfl) (by simp [hdef]) (Nat.le_of_eq hpops)
  rw [hpops, Nat.sub_self, Nat.zero_add, hpushes, hdef, ← hcode] at hcall
  unfold ExprCode.Leaves
  split
  · next hleft => rwa [if_pos hleft] at hcall
  · next hleft =>
    rw [if_neg hleft] at hcall
    exact fun inlined inLoop => .straight hcall

theorem exprLeaves (hsetting : setting.Structured) (expr : Expr) : ExprLeaves setting expr := by
  induction expr using Expr.induction with
  | int value =>
    intro scope line next compiled h
    obtain ⟨push, hpush, rfl⟩ := compileExpr_int_ok h
    exact pushNumber_values hpush
  | str text =>
    intro scope line next compiled h
    obtain rfl := compileExpr_str_ok h
    exact Values.push _ rfl (by simp) rfl rfl
  | ident name =>
    intro scope line next compiled h
    obtain ⟨push, hpush, rfl⟩ := compileExpr_ident_ok h
    exact pushName_values hpush
  | call name args ih =>
    intro scope line next compiled h
    rcases compileExpr_call_ok h with
      ⟨builtin, back, hname, harity, hargs, hcode, hvalue⟩ | ⟨routine, _, hcall⟩
    · have hvalues := compileArgs_values ih hargs
      rw [harity] at hvalues hcode
      exact callEngine_leaves hname hvalues hcode hvalue
    · obtain ⟨_, hvalue, ⟨_, hexpand⟩ | ⟨_, number, _, hcode, _⟩⟩ := callRoutine_ok hcall
      · rw [ExprCode.Leaves, hvalue]
        exact hsetting routine next _ _ hexpand
      · rw [ExprCode.Leaves, hvalue, hcode]
        intro inlined inLoop
        exact .straight (.snoc .nil (.startScript number) rfl (by simp) (Nat.le_refl 0))
  | unary op expr ih =>
    intro scope line next compiled h
    obtain ⟨code, hvalue, hcode, hleaves⟩ := compileExpr_unary_ok h
    rw [ExprCode.Leaves, if_pos hleaves, hcode]
    exact (ih.value hvalue).snoc (.unary op) rfl (by simp) (Nat.le_refl 1)
  | binary op left right ihLeft ihRight =>
    intro scope line next compiled h
    obtain ⟨leftCode, middle, rightCode, hleft, hright, hcode, hleaves⟩ := compileExpr_binary_ok h
    rw [ExprCode.Leaves, if_pos hleaves, hcode]
    have hboth := (ihLeft.value hleft).append (ihRight.value hright)
    exact hboth.snoc (.binary op) rfl (by simp) (Nat.le_refl 2)

/-- What a statement says about its code. -/
def StmtStructured (setting : Setting) (stmt : Stmt) : Prop :=
  ∀ scope next compiled, compileStmt setting stmt scope next = .ok compiled →
    Structured setting.inlined scope.inLoop compiled.code

theorem compileStmts_structured {body : List Stmt} (h : ∀ stmt ∈ body, StmtStructured setting stmt)
    {compiled : StmtCode} (hbody : compileStmts setting body scope next [] = .ok compiled) :
    Structured setting.inlined scope.inLoop compiled.code := by
  induction body generalizing scope next compiled with
  | nil =>
    rw [compileStmts] at hbody
    obtain rfl := Except.ok.inj hbody
    exact .straight .nil
  | cons stmt rest ih =>
    obtain ⟨first, tail, hfirst, htail, rfl⟩ := compileStmts_cons_ok hbody
    have hrest := ih (fun other hother => h other (List.mem_cons_of_mem stmt hother)) htail
    rw [compileStmt_inLoop hfirst] at hrest
    exact .append (h stmt List.mem_cons_self scope next first hfirst) hrest

theorem compileOptional_structured {choice : Option Stmt}
    (h : ∀ stmt ∈ choice, StmtStructured setting stmt) {code : Option Fragment}
    {compiled : StmtCode}
    (hchoice : compileOptional setting choice scope next = .ok (code, compiled)) :
    ∀ fragment ∈ code, Structured setting.inlined scope.inLoop fragment := by
  intro fragment hfragment
  cases choice with
  | none =>
    obtain ⟨rfl, _⟩ := compileOptional_none_ok hchoice
    exact absurd hfragment (by simp)
  | some stmt =>
    obtain ⟨hstmt, rfl⟩ := compileOptional_some_ok hchoice
    obtain rfl := Option.some.inj hfragment
    exact h stmt rfl scope next compiled hstmt

/-- A statement that may be missing, as a part of a row. -/
theorem structured_getD {inlined inLoop : Bool} {code : Option Fragment}
    (h : ∀ fragment ∈ code, Structured inlined inLoop fragment) :
    Structured inlined inLoop (code.getD []) := by
  cases code with
  | none => exact .straight .nil
  | some fragment => exact h fragment rfl

theorem storeName_values {site : Site} {name : String} {store : Instr Target} {code : Fragment}
    (hstore : storeName site scope name = .ok store) (hcode : Values 1 code) :
    Values 0 (code ++ [store]) := by
  rcases storeName_ok hstore with ⟨slot, _, rfl⟩ | ⟨id, _, rfl⟩
  · exact hcode.snoc (.storeLocal slot) rfl (by simp) (Nat.le_refl 1)
  · exact hcode.snoc (.storeGlobal id) rfl (by simp) (Nat.le_refl 1)

theorem compileInit_values (hsetting : setting.Structured) {init : Option Expr} {code : Fragment}
    {behind : Nat} (h : compileInit setting scope line init next = .ok (code, behind)) :
    Values 1 code := by
  cases init with
  | none =>
    obtain ⟨rfl, rfl⟩ := Prod.mk.inj (Except.ok.inj h)
    exact .push _ rfl (by simp) rfl rfl
  | some init => exact (exprLeaves hsetting init).value h

theorem compileCond_values (hsetting : setting.Structured) {cond : Option Expr}
    {code : Option Fragment} {behind : Nat}
    (h : compileCond setting scope line cond next = .ok (code, behind)) :
    ∀ test ∈ code, Values 1 test := by
  intro test htest
  rcases compileCond_ok h with ⟨rfl, rfl, rfl⟩ | ⟨expr, fragment, rfl, rfl, hvalue⟩
  · exact absurd htest (by simp)
  · obtain rfl := Option.some.inj htest
    exact (exprLeaves hsetting expr).value hvalue

/-- The code of a statement is put together from the code of its parts. -/
theorem stmtStructured (hsetting : setting.Structured) (stmt : Stmt) :
    StmtStructured setting stmt := by
  induction stmt using Stmt.induction with
  | block line body ih =>
    intro scope next compiled h
    obtain ⟨inner, hinner, rfl⟩ := compileStmt_block_ok h
    show Structured setting.inlined (scope.push .block).inLoop inner.code
    exact compileStmts_structured ih hinner
  | var line name init =>
    intro scope next compiled h
    obtain ⟨slot, code, behind, _, hinit, rfl⟩ := compileStmt_var_ok h
    have hcode := compileInit_values hsetting hinit
    exact .straight (hcode.snoc (.storeLocal slot) rfl (by simp) (Nat.le_refl 1))
  | const line name value =>
    intro scope next compiled h
    obtain rfl := compileStmt_const_ok h
    exact .straight .nil
  | assign line name value =>
    intro scope next compiled h
    obtain ⟨store, code, behind, hstore, hvalue, rfl⟩ := compileStmt_assign_ok h
    exact .straight (storeName_values hstore ((exprLeaves hsetting value).value hvalue))
  | eval line expr =>
    intro scope next compiled h
    obtain ⟨inner, hinner, rfl⟩ := compileStmt_eval_ok h
    have hleaves := exprLeaves hsetting expr scope line next inner hinner
    unfold ExprCode.Leaves at hleaves
    split at hleaves
    · next hvalue =>
      simp only [hvalue, if_true]
      exact .straight (hleaves.snoc .pop rfl (by simp) (Nat.le_refl 1))
    · next hvalue =>
      simp only [hvalue, Bool.false_eq_true, if_false, List.append_nil]
      exact hleaves setting.inlined scope.inLoop
  | ifElse line cond yes no ihYes ihNo =>
    intro scope next compiled h
    obtain ⟨condCode, middle, yesCode, noCode, last, hcond, hyes, hno, rfl⟩ :=
      compileStmt_ifElse_ok h
    have hyesCode := ihYes _ _ _ hyes
    have hnoCode := compileOptional_structured ihNo hno
    exact .choice ((exprLeaves hsetting cond).value hcond) hyesCode hnoCode
  | whileLoop line cond body ih =>
    intro scope next compiled h
    obtain ⟨condCode, middle, bodyCode, hcond, hbody, rfl⟩ := compileStmt_whileLoop_ok h
    exact .testLoop ((exprLeaves hsetting cond).value hcond) (ih _ _ _ hbody)
  | forLoop line init cond step body ihInit ihStep ihBody =>
    intro scope next compiled h
    obtain ⟨initCode, head, condLine, condCode, middle, bodyCode, stepCode, last, hinit, hcond,
      hbody, hstep, rfl⟩ := compileStmt_forLoop_ok h
    have hhead : head.scope.inLoop = (scope.push .block).inLoop := compileOptional_inLoop hinit
    have hinitCode := structured_getD (compileOptional_structured ihInit hinit)
    have hstepCode := structured_getD (compileOptional_structured ihStep hstep)
    rw [hhead] at hstepCode
    exact .append hinitCode
      (.stepLoop (compileCond_values hsetting hcond) (ihBody _ _ _ hbody) hstepCode)
  | breakLoop line =>
    intro scope next compiled h
    obtain ⟨hloop, rfl⟩ := compileStmt_breakLoop_ok h
    rw [hloop]
    exact .breakLoop
  | continueLoop line =>
    intro scope next compiled h
    obtain ⟨hloop, rfl⟩ := compileStmt_continueLoop_ok h
    rw [hloop]
    exact .continueLoop
  | leave line =>
    intro scope next compiled h
    obtain rfl := compileStmt_leave_ok h
    cases setting.inlined with
    | true => exact .leaveBody
    | false => exact .stop

/-! ## Functions -/

theorem expandCall_structured (function : String) (room : Scope) (depth : Nat)
    (calls : List String) (inlined : Bool) :
    Setting.Structured ⟨function, inlined, expandCall function room depth calls⟩ := by
  induction depth generalizing calls inlined with
  | zero =>
    intro routine next code behind h
    obtain ⟨_, _, hdepth, _⟩ := expandCall_ok h
    exact absurd hdepth (by simp)
  | succ depth ih =>
    intro routine next code behind h inlined inLoop
    obtain ⟨rest, inner, hdepth, _, hinner, rfl, _⟩ := expandCall_ok h
    obtain rfl := Nat.succ.inj hdepth
    exact .body (stmtStructured (ih (routine.name :: calls) true) routine.body _ _ _ hinner)

/-- A function's body is code of statements, with no loop and no body around it. -/
theorem compileBody_structured {room : Scope} {routine : Routine} {compiled : StmtCode}
    (h : compileStmt (.ofRoutine room routine) routine.body (room.push .function) 0 =
      .ok compiled) : Structured false false compiled.code :=
  stmtStructured (expandCall_structured routine.name room (room.routines.length + 1) [] false)
    routine.body _ _ _ h

end RoomForge.Code
