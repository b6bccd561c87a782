import RoomForge.Code.Compile
import RoomForge.Proofs.Fallible
import RoomForge.Proofs.Machine

set_option autoImplicit false

/-! # What compilation gives

For each form of expression and statement of section 4.3 of the specification, what it means that
its compilation succeeded: which parts were compiled, under which names and from which slot on, and
how the code is put together. Proofs about code use these facts and leave the compiler's definitions
closed, so that a change of the compiler is met here first.
-/

namespace RoomForge.Script

/-! ## Induction on trees -/

/-- Induction on expressions, with a hypothesis for every argument of a call. -/
@[elab_as_elim]
theorem Expr.induction {motive : Expr → Prop} (int : ∀ value, motive (.int value))
    (str : ∀ text, motive (.str text)) (ident : ∀ name, motive (.ident name))
    (call : ∀ name args, (∀ arg ∈ args, motive arg) → motive (.call name args))
    (unary : ∀ op expr, motive expr → motive (.unary op expr))
    (binary : ∀ op left right, motive left → motive right → motive (.binary op left right))
    (expr : Expr) : motive expr := by
  refine @Expr.rec motive (fun args => ∀ arg ∈ args, motive arg) int str ident call unary binary
    ?_ ?_ expr
  · intro arg harg
    exact absurd harg List.not_mem_nil
  · intro head tail hhead htail arg harg
    rcases List.mem_cons.mp harg with rfl | hmem
    · exact hhead
    · exact htail arg hmem

/-- Induction on statements, with a hypothesis for every statement inside of one. -/
@[elab_as_elim]
theorem Stmt.induction {motive : Stmt → Prop}
    (block : ∀ line body, (∀ stmt ∈ body, motive stmt) → motive (.block line body))
    (var : ∀ line name init, motive (.var line name init))
    (const : ∀ line name value, motive (.const line name value))
    (assign : ∀ line name value, motive (.assign line name value))
    (eval : ∀ line expr, motive (.eval line expr))
    (ifElse : ∀ line cond yes no, motive yes → (∀ stmt ∈ no, motive stmt) →
      motive (.ifElse line cond yes no))
    (whileLoop : ∀ line cond body, motive body → motive (.whileLoop line cond body))
    (forLoop : ∀ line init cond step body, (∀ stmt ∈ init, motive stmt) →
      (∀ stmt ∈ step, motive stmt) → motive body → motive (.forLoop line init cond step body))
    (breakLoop : ∀ line, motive (.breakLoop line))
    (continueLoop : ∀ line, motive (.continueLoop line))
    (leave : ∀ line, motive (.leave line)) (stmt : Stmt) : motive stmt := by
  refine @Stmt.rec motive (fun body => ∀ stmt ∈ body, motive stmt)
    (fun choice => ∀ stmt ∈ choice, motive stmt) block var const assign eval ifElse whileLoop
    forLoop breakLoop continueLoop leave ?_ ?_ ?_ ?_ stmt
  · intro stmt hstmt
    exact absurd hstmt List.not_mem_nil
  · intro head tail hhead htail stmt hstmt
    rcases List.mem_cons.mp hstmt with rfl | hmem
    · exact hhead
    · exact htail stmt hmem
  · intro stmt hstmt
    exact absurd hstmt (by simp)
  · intro inner hinner stmt hstmt
    rw [← Option.some.inj hstmt]
    exact hinner

end RoomForge.Script

namespace RoomForge.Code

open RoomForge.Script

variable {setting : Setting} {scope : Scope} {line next : Nat}

/-! ## Single instructions -/

/-- A number that is pushed is a signed word. -/
theorem pushNumber_ok {site : Site} {value : Int} {instr : Instr Target}
    (h : pushNumber site value = .ok instr) :
    instr = .pushWord (Int16.ofInt value) ∧ (Int16.ofInt value).toInt = value := by
  unfold pushNumber at h
  split at h
  · next hrange =>
    exact ⟨(Except.ok.inj h).symm, Int16.toInt_ofInt_of_le hrange.1 (by omega)⟩
  · exact absurd h (by simp)

/-- What a name that is pushed can stand for. -/
theorem pushName_ok {site : Site} {name : String} {instr : Instr Target}
    (h : pushName site scope name = .ok instr) :
    (∃ value, scope.resolve? name = some (.constant value) ∧ pushNumber site value = .ok instr) ∨
      (∃ slot, scope.resolve? name = some (.slot slot) ∧ instr = .loadLocal slot) ∨
      (∃ id, scope.resolve? name = some (.global id) ∧ instr = .loadGlobal id) := by
  unfold pushName at h
  split at h
  · next value hname => exact .inl ⟨value, hname, h⟩
  · next slot hname => exact .inr (.inl ⟨slot, hname, (Except.ok.inj h).symm⟩)
  · next id hname => exact .inr (.inr ⟨id, hname, (Except.ok.inj h).symm⟩)
  all_goals exact absurd h (by simp)

/-- What a name that is assigned to can stand for. -/
theorem storeName_ok {site : Site} {name : String} {instr : Instr Target}
    (h : storeName site scope name = .ok instr) :
    (∃ slot, scope.resolve? name = some (.slot slot) ∧ instr = .storeLocal slot) ∨
      (∃ id, scope.resolve? name = some (.global id) ∧ instr = .storeGlobal id) := by
  unfold storeName at h
  split at h
  · next slot hname => exact .inl ⟨slot, hname, (Except.ok.inj h).symm⟩
  · next id hname => exact .inr ⟨id, hname, (Except.ok.inj h).symm⟩
  all_goals exact absurd h (by simp)

theorem newSlot_ok {function : String} {slot : UInt8} (h : newSlot function next = .ok slot) :
    next < 256 ∧ slot.toNat = next := by
  unfold newSlot at h
  split at h
  · next hlt =>
    obtain rfl := Except.ok.inj h
    exact ⟨hlt, by simpa using Nat.mod_eq_of_lt hlt⟩
  · exact absurd h (by simp)

/-- A fault that a single expression can have. -/
def CompileError.IsMisfit : CompileError → Prop
  | .unresolved .. | .misuse .. | .arity .. | .noValue .. | .notWord .. => True
  | _ => False

section

variable {bad : CompileError → Prop} (hbad : ∀ fault : CompileError, fault.IsMisfit → ¬ bad fault)

include hbad

theorem pushNumber_avoids (site : Site) (value : Int) : Avoids bad (pushNumber site value) := by
  unfold pushNumber
  split
  · exact .ok
  · exact .error (hbad _ trivial)

theorem pushName_avoids (site : Site) (scope : Scope) (name : String) :
    Avoids bad (pushName site scope name) := by
  unfold pushName
  split
  · exact pushNumber_avoids hbad site _
  · exact .ok
  · exact .ok
  all_goals exact .error (hbad _ trivial)

theorem storeName_avoids (site : Site) (scope : Scope) (name : String) :
    Avoids bad (storeName site scope name) := by
  unfold storeName
  split
  · exact .ok
  · exact .ok
  all_goals exact .error (hbad _ trivial)

theorem requireValue_avoids (site : Site) (expr : Expr) (compiled : ExprCode) :
    Avoids bad (requireValue site expr compiled) := by
  unfold requireValue
  split
  · exact .ok
  · exact .error (hbad _ trivial)

end

theorem newSlot_avoids {bad : CompileError → Prop} {function : String}
    (hfull : ¬ bad (.tooManyLocals function)) (next : Nat) :
    Avoids bad (newSlot function next) := by
  unfold newSlot
  split
  · exact .ok
  · exact .error hfull

/-! ## The engine's functions -/

/-- The engine's functions are found by their names alone. -/
theorem mem_builtins_of_resolve? {scope : Scope} {name : String} {builtin : Builtin}
    (h : scope.resolve? name = some (.builtin builtin)) : builtin ∈ Engine.builtins := by
  induction scope with
  | nil =>
    simp only [Scope.resolve?] at h
    split at h
    · exact absurd h (by simp)
    · obtain ⟨found, hfound, heq⟩ := Option.map_eq_some_iff.mp h
      obtain rfl := Meaning.builtin.inj heq
      exact List.mem_of_find?_eq_some hfound
  | cons frame outer ih =>
    simp only [Scope.resolve?] at h
    split at h
    · next meaning hfind =>
      obtain rfl := Option.some.inj h
      unfold Frame.find? at hfind
      split at hfind
      · exact absurd hfind (by simp)
      · split at hfind
        · exact absurd hfind (by simp)
        · obtain ⟨routine, _, heq⟩ := Option.map_eq_some_iff.mp hfind
          exact absurd heq (by simp)
    · exact ih h

/-- The engine's functions have few arguments, and numbers of their own. -/
theorem builtins_arity_and_returns :
    ∀ builtin ∈ Engine.builtins, builtin.arity < 256 ∧
      Engine.returns builtin.id = builtin.returns := by
  decide

/-! ## Expressions -/

theorem compileValue_eq_ok_iff {expr : Expr} {code : Fragment} {behind : Nat} :
    compileValue setting scope line expr next = .ok (code, behind) ↔
      ∃ compiled, compileExpr setting scope line expr next = .ok compiled ∧
        compiled.value = true ∧ compiled.code = code ∧ compiled.next = behind := by
  unfold compileValue
  rw [bind_eq_ok_iff]
  refine exists_congr fun compiled => and_congr_right fun _ => ?_
  unfold requireValue
  cases compiled.value with
  | false => simp [bind, Except.bind]
  | true => simp [bind, Except.bind, ExprCode.code]

/-- An operand inside of a longer computation. -/
theorem requireValue_bind_ok {α : Type} {expr : Expr}
    {rest : Fragment × Nat → Except CompileError α} {result : α}
    (h : (compileExpr setting scope line expr next >>= fun compiled =>
      requireValue (setting.site line) expr compiled >>= rest) = .ok result) :
    ∃ code behind, compileValue setting scope line expr next = .ok (code, behind) ∧
      rest (code.reverse, behind) = .ok result := by
  obtain ⟨compiled, hcompiled, hrest⟩ := bind_eq_ok_iff.mp h
  obtain ⟨⟨back, behind⟩, hvalue, hrest⟩ := bind_eq_ok_iff.mp hrest
  unfold requireValue at hvalue
  split at hvalue
  · next hleft =>
    obtain ⟨rfl, rfl⟩ := Prod.mk.inj (Except.ok.inj hvalue)
    refine ⟨compiled.code, compiled.next, ?_, by rwa [ExprCode.code, List.reverse_reverse]⟩
    exact compileValue_eq_ok_iff.mpr ⟨compiled, hcompiled, hleft, rfl, rfl⟩
  · exact absurd hvalue (by simp)

theorem compileExpr_int_ok {value : Int} {compiled : ExprCode}
    (h : compileExpr setting scope line (.int value) next = .ok compiled) :
    ∃ push, pushNumber (setting.site line) value = .ok push ∧ compiled = ⟨[push], next, true⟩ := by
  rw [compileExpr] at h
  obtain ⟨push, hpush, hrest⟩ := bind_eq_ok_iff.mp h
  exact ⟨push, hpush, (Except.ok.inj hrest).symm⟩

theorem compileExpr_str_ok {text : String} {compiled : ExprCode}
    (h : compileExpr setting scope line (.str text) next = .ok compiled) :
    compiled = ⟨[.pushString text], next, true⟩ := by
  rw [compileExpr_str] at h
  exact (Except.ok.inj h).symm

theorem compileExpr_ident_ok {name : String} {compiled : ExprCode}
    (h : compileExpr setting scope line (.ident name) next = .ok compiled) :
    ∃ push, pushName (setting.site line) scope name = .ok push ∧
      compiled = ⟨[push], next, true⟩ := by
  rw [compileExpr] at h
  obtain ⟨push, hpush, hrest⟩ := bind_eq_ok_iff.mp h
  exact ⟨push, hpush, (Except.ok.inj hrest).symm⟩

theorem compileExpr_unary_ok {op : UnOp} {expr : Expr} {compiled : ExprCode}
    (h : compileExpr setting scope line (.unary op expr) next = .ok compiled) :
    ∃ code, compileValue setting scope line expr next = .ok (code, compiled.next) ∧
      compiled.code = code ++ [.unary op] ∧ compiled.value = true := by
  unfold compileExpr at h
  obtain ⟨code, behind, hvalue, hrest⟩ := requireValue_bind_ok h
  obtain rfl := Except.ok.inj hrest
  exact ⟨code, hvalue, by simp [ExprCode.code], rfl⟩

theorem compileExpr_binary_ok {op : BinOp} {left right : Expr} {compiled : ExprCode}
    (h : compileExpr setting scope line (.binary op left right) next = .ok compiled) :
    ∃ leftCode middle rightCode,
      compileValue setting scope line left next = .ok (leftCode, middle) ∧
      compileValue setting scope line right middle = .ok (rightCode, compiled.next) ∧
      compiled.code = leftCode ++ rightCode ++ [.binary op] ∧ compiled.value = true := by
  unfold compileExpr at h
  obtain ⟨leftCode, middle, hleft, hrest⟩ := requireValue_bind_ok h
  obtain ⟨rightCode, behind, hright, hrest⟩ := requireValue_bind_ok hrest
  obtain rfl := Except.ok.inj hrest
  exact ⟨leftCode, middle, rightCode, hleft, hright, by simp [ExprCode.code], rfl⟩

theorem compileArgs_cons_ok {arg : Expr} {rest : List Expr} {back : Fragment} {behind : Nat}
    (h : compileArgs setting scope line (arg :: rest) next = .ok (back, behind)) :
    ∃ code middle restBack, compileValue setting scope line arg next = .ok (code, middle) ∧
      compileArgs setting scope line rest middle = .ok (restBack, behind) ∧
      back.reverse = code ++ restBack.reverse := by
  unfold compileArgs at h
  obtain ⟨code, middle, harg, hrest⟩ := requireValue_bind_ok h
  obtain ⟨⟨restBack, last⟩, hargs, hrest⟩ := bind_eq_ok_iff.mp hrest
  obtain ⟨rfl, rfl⟩ := Prod.mk.inj (Except.ok.inj hrest)
  exact ⟨code, middle, restBack, harg, hargs, by simp⟩

/-- What is called: a function of the engine, or a script function. -/
theorem compileExpr_call_ok {name : String} {args : List Expr} {compiled : ExprCode}
    (h : compileExpr setting scope line (.call name args) next = .ok compiled) :
    (∃ builtin back, scope.resolve? name = some (.builtin builtin) ∧
      args.length = builtin.arity ∧
      compileArgs setting scope line args next = .ok (back, compiled.next) ∧
      compiled.code = back.reverse ++ [.callBuiltin builtin.id (UInt8.ofNat args.length)] ∧
      compiled.value = builtin.returns) ∨
    (∃ routine, scope.resolve? name = some (.routine routine) ∧
      callRoutine setting (setting.site line) name routine args.length next = .ok compiled) := by
  unfold compileExpr at h
  split at h
  · next builtin hname =>
    split at h
    · exact absurd h (by simp)
    · next harity =>
      obtain ⟨⟨back, behind⟩, hargs, hrest⟩ := bind_eq_ok_iff.mp h
      obtain rfl := Except.ok.inj hrest
      exact .inl ⟨builtin, back, hname, not_not.mp harity, hargs, by simp [ExprCode.code], rfl⟩
  · next routine hname => exact .inr ⟨routine, hname, h⟩
  all_goals exact absurd h (by simp)

/-- A call of a script function has no arguments. It expands the function or starts it. -/
theorem callRoutine_ok {site : Site} {name : String} {routine : Routine} {argc : Nat}
    {compiled : ExprCode} (h : callRoutine setting site name routine argc next = .ok compiled) :
    argc = 0 ∧ compiled.value = false ∧
      ((routine.isInlined = true ∧
        setting.expand routine next = .ok (compiled.code, compiled.next)) ∨
      (routine.isInlined = false ∧ ∃ number, routine.number = some number ∧
        compiled.code = [.startScript number] ∧ compiled.next = next)) := by
  unfold callRoutine at h
  split at h
  · exact absurd h (by simp)
  · next hargc =>
    refine ⟨not_not.mp hargc, ?_⟩
    split at h
    · next hinlined =>
      obtain ⟨⟨code, behind⟩, hexpand, hrest⟩ := bind_eq_ok_iff.mp h
      obtain rfl := Except.ok.inj hrest
      exact ⟨rfl, .inl ⟨hinlined, by simpa [ExprCode.code] using hexpand⟩⟩
    · next hinlined =>
      split at h
      · next number hnumber =>
        obtain rfl := Except.ok.inj h
        exact ⟨rfl, .inr ⟨by simpa using hinlined, number, hnumber, rfl, rfl⟩⟩
      · exact absurd h (by simp)

/-! ## Statements -/

/-- The code of a row stands behind what was taken before it. -/
theorem compileStmts_taken (body : List Stmt) (scope : Scope) (next : Nat) (taken : List Fragment) :
    compileStmts setting body scope next taken =
      (compileStmts setting body scope next []).map fun compiled =>
        { compiled with code := taken.reverse.flatten ++ compiled.code } := by
  induction body generalizing scope next taken with
  | nil => simp [compileStmts, Except.map]
  | cons stmt rest ih =>
    simp only [compileStmts]
    cases compileStmt setting stmt scope next with
    | error e => rfl
    | ok compiled =>
      simp only [bind, Except.bind]
      rw [ih, ih compiled.scope compiled.next [compiled.code]]
      cases compileStmts setting rest compiled.scope compiled.next [] with
      | error e => rfl
      | ok tail => simp [Except.map]

theorem compileStmts_cons_ok {stmt : Stmt} {rest : List Stmt} {compiled : StmtCode}
    (h : compileStmts setting (stmt :: rest) scope next [] = .ok compiled) :
    ∃ first last, compileStmt setting stmt scope next = .ok first ∧
      compileStmts setting rest first.scope first.next [] = .ok last ∧
      compiled = { last with code := first.code ++ last.code } := by
  rw [compileStmts] at h
  obtain ⟨first, hfirst, hrest⟩ := bind_eq_ok_iff.mp h
  rw [compileStmts_taken] at hrest
  cases hlast : compileStmts setting rest first.scope first.next [] with
  | error e => simp [hlast, Except.map] at hrest
  | ok last =>
    refine ⟨first, last, hfirst, hlast, ?_⟩
    simpa [hlast, Except.map] using hrest.symm

theorem compileStmt_block_ok {body : List Stmt} {compiled : StmtCode}
    (h : compileStmt setting (.block line body) scope next = .ok compiled) :
    ∃ inner, compileStmts setting body (scope.push .block) next [] = .ok inner ∧
      compiled = { inner with scope } := by
  rw [compileStmt] at h
  obtain ⟨inner, hinner, hrest⟩ := bind_eq_ok_iff.mp h
  exact ⟨inner, hinner, (Except.ok.inj hrest).symm⟩

theorem compileStmt_var_ok {name : String} {init : Option Expr} {compiled : StmtCode}
    (h : compileStmt setting (.var line name init) scope next = .ok compiled) :
    ∃ slot code behind, newSlot setting.function next = .ok slot ∧
      compileInit setting scope line init (next + 1) = .ok (code, behind) ∧
      compiled = ⟨code ++ [.storeLocal slot], scope.declareLocal name slot, behind⟩ := by
  rw [compileStmt] at h
  obtain ⟨slot, hslot, hrest⟩ := bind_eq_ok_iff.mp h
  obtain ⟨⟨code, behind⟩, hinit, hrest⟩ := bind_eq_ok_iff.mp hrest
  exact ⟨slot, code, behind, hslot, hinit, (Except.ok.inj hrest).symm⟩

theorem compileStmt_const_ok {name : String} {value : Int} {compiled : StmtCode}
    (h : compileStmt setting (.const line name value) scope next = .ok compiled) :
    compiled = ⟨[], scope.declareConst ⟨name, value⟩, next⟩ := by
  rw [compileStmt_const] at h
  exact (Except.ok.inj h).symm

theorem compileStmt_assign_ok {name : String} {value : Expr} {compiled : StmtCode}
    (h : compileStmt setting (.assign line name value) scope next = .ok compiled) :
    ∃ store code behind, storeName (setting.site line) scope name = .ok store ∧
      compileValue setting scope line value next = .ok (code, behind) ∧
      compiled = ⟨code ++ [store], scope, behind⟩ := by
  rw [compileStmt] at h
  obtain ⟨store, hstore, hrest⟩ := bind_eq_ok_iff.mp h
  obtain ⟨⟨code, behind⟩, hvalue, hrest⟩ := bind_eq_ok_iff.mp hrest
  exact ⟨store, code, behind, hstore, hvalue, (Except.ok.inj hrest).symm⟩

/-- A value that an evaluation leaves is dropped. -/
theorem compileStmt_eval_ok {expr : Expr} {compiled : StmtCode}
    (h : compileStmt setting (.eval line expr) scope next = .ok compiled) :
    ∃ inner, compileExpr setting scope line expr next = .ok inner ∧
      compiled = ⟨inner.code ++ (if inner.value then [.pop] else []), scope, inner.next⟩ := by
  rw [compileStmt] at h
  obtain ⟨inner, hinner, hrest⟩ := bind_eq_ok_iff.mp h
  refine ⟨inner, hinner, ?_⟩
  rw [← Except.ok.inj hrest]
  cases inner.value <;> simp

theorem compileStmt_ifElse_ok {cond : Expr} {yes : Stmt} {no : Option Stmt} {compiled : StmtCode}
    (h : compileStmt setting (.ifElse line cond yes no) scope next = .ok compiled) :
    ∃ condCode middle yesCode noCode last,
      compileValue setting scope line cond next = .ok (condCode, middle) ∧
      compileStmt setting yes (scope.push .block) middle = .ok yesCode ∧
      compileOptional setting no (scope.push .block) yesCode.next = .ok (noCode, last) ∧
      compiled = ⟨choice condCode yesCode.code noCode, scope, last.next⟩ := by
  rw [compileStmt] at h
  obtain ⟨⟨condCode, middle⟩, hcond, hrest⟩ := bind_eq_ok_iff.mp h
  obtain ⟨yesCode, hyes, hrest⟩ := bind_eq_ok_iff.mp hrest
  obtain ⟨⟨noCode, last⟩, hno, hrest⟩ := bind_eq_ok_iff.mp hrest
  exact ⟨condCode, middle, yesCode, noCode, last, hcond, hyes, hno, (Except.ok.inj hrest).symm⟩

theorem compileStmt_whileLoop_ok {cond : Expr} {body : Stmt} {compiled : StmtCode}
    (h : compileStmt setting (.whileLoop line cond body) scope next = .ok compiled) :
    ∃ condCode middle bodyCode,
      compileValue setting scope line cond next = .ok (condCode, middle) ∧
      compileStmt setting body (scope.push .loop) middle = .ok bodyCode ∧
      compiled = ⟨testLoop condCode bodyCode.code, scope, bodyCode.next⟩ := by
  rw [compileStmt] at h
  obtain ⟨⟨condCode, middle⟩, hcond, hrest⟩ := bind_eq_ok_iff.mp h
  obtain ⟨bodyCode, hbody, hrest⟩ := bind_eq_ok_iff.mp hrest
  exact ⟨condCode, middle, bodyCode, hcond, hbody, (Except.ok.inj hrest).symm⟩

theorem compileStmt_forLoop_ok {init step : Option Stmt} {cond : Option Expr} {body : Stmt}
    {compiled : StmtCode}
    (h : compileStmt setting (.forLoop line init cond step body) scope next = .ok compiled) :
    ∃ initCode head condLine condCode middle bodyCode stepCode last,
      compileOptional setting init (scope.push .block) next = .ok (initCode, head) ∧
      compileCond setting head.scope condLine cond head.next = .ok (condCode, middle) ∧
      compileStmt setting body (head.scope.push .loop) middle = .ok bodyCode ∧
      compileOptional setting step head.scope bodyCode.next = .ok (stepCode, last) ∧
      compiled = ⟨initCode.getD [] ++ stepLoop condCode bodyCode.code (stepCode.getD []), scope,
        last.next⟩ := by
  rw [compileStmt] at h
  obtain ⟨⟨initCode, head⟩, hinit, hrest⟩ := bind_eq_ok_iff.mp h
  obtain ⟨⟨condCode, middle⟩, hcond, hrest⟩ := bind_eq_ok_iff.mp hrest
  obtain ⟨bodyCode, hbody, hrest⟩ := bind_eq_ok_iff.mp hrest
  obtain ⟨⟨stepCode, last⟩, hstep, hrest⟩ := bind_eq_ok_iff.mp hrest
  exact ⟨initCode, head, _, condCode, middle, bodyCode, stepCode, last, hinit, hcond, hbody, hstep,
    (Except.ok.inj hrest).symm⟩

theorem compileStmt_breakLoop_ok {compiled : StmtCode}
    (h : compileStmt setting (.breakLoop line) scope next = .ok compiled) :
    scope.inLoop = true ∧ compiled = ⟨[.jump .loopEnd], scope, next⟩ := by
  rw [compileStmt] at h
  split at h
  · next hloop => exact ⟨hloop, (Except.ok.inj h).symm⟩
  · exact absurd h (by simp)

theorem compileStmt_continueLoop_ok {compiled : StmtCode}
    (h : compileStmt setting (.continueLoop line) scope next = .ok compiled) :
    scope.inLoop = true ∧ compiled = ⟨[.jump .loopNext], scope, next⟩ := by
  rw [compileStmt] at h
  split at h
  · next hloop => exact ⟨hloop, (Except.ok.inj h).symm⟩
  · exact absurd h (by simp)

theorem compileStmt_leave_ok {compiled : StmtCode}
    (h : compileStmt setting (.leave line) scope next = .ok compiled) :
    compiled = ⟨[if setting.inlined then .jump .bodyEnd else .stop], scope, next⟩ := by
  rw [compileStmt] at h
  exact (Except.ok.inj h).symm

theorem compileOptional_none_ok {code : Option Fragment} {compiled : StmtCode}
    (h : compileOptional setting none scope next = .ok (code, compiled)) :
    code = none ∧ compiled = ⟨[], scope, next⟩ := by
  rw [compileOptional] at h
  obtain ⟨rfl, rfl⟩ := Prod.mk.inj (Except.ok.inj h)
  exact ⟨rfl, rfl⟩

theorem compileOptional_some_ok {stmt : Stmt} {code : Option Fragment} {compiled : StmtCode}
    (h : compileOptional setting (some stmt) scope next = .ok (code, compiled)) :
    compileStmt setting stmt scope next = .ok compiled ∧ code = some compiled.code := by
  rw [compileOptional] at h
  obtain ⟨inner, hinner, hrest⟩ := bind_eq_ok_iff.mp h
  obtain ⟨rfl, rfl⟩ := Prod.mk.inj (Except.ok.inj hrest)
  exact ⟨hinner, rfl⟩

/-- The code of a statement that may be missing is that of the statement, or nothing. -/
theorem compileOptional_code {choice : Option Stmt} {code : Option Fragment} {compiled : StmtCode}
    (h : compileOptional setting choice scope next = .ok (code, compiled)) :
    code.getD [] = compiled.code := by
  cases choice with
  | none =>
    obtain ⟨rfl, rfl⟩ := compileOptional_none_ok h
    rfl
  | some stmt =>
    obtain ⟨_, rfl⟩ := compileOptional_some_ok h
    rfl

/-- Behind a statement there is at most one declaration more than in front of it. -/
theorem compileStmt_scope {stmt : Stmt} {compiled : StmtCode}
    (h : compileStmt setting stmt scope next = .ok compiled) :
    compiled.scope = scope ∨ (∃ name slot, compiled.scope = scope.declareLocal name slot) ∨
      ∃ constant, compiled.scope = scope.declareConst constant := by
  cases stmt with
  | block line body =>
    obtain ⟨inner, _, rfl⟩ := compileStmt_block_ok h
    exact .inl rfl
  | var line name init =>
    obtain ⟨slot, fragment, behind, _, _, rfl⟩ := compileStmt_var_ok h
    exact .inr (.inl ⟨name, slot, rfl⟩)
  | const line name value =>
    obtain rfl := compileStmt_const_ok h
    exact .inr (.inr ⟨⟨name, value⟩, rfl⟩)
  | assign line name value =>
    obtain ⟨store, fragment, behind, _, _, rfl⟩ := compileStmt_assign_ok h
    exact .inl rfl
  | eval line expr =>
    obtain ⟨inner, _, rfl⟩ := compileStmt_eval_ok h
    exact .inl rfl
  | ifElse line cond yes no =>
    obtain ⟨condCode, middle, yesCode, noCode, last, _, _, _, rfl⟩ := compileStmt_ifElse_ok h
    exact .inl rfl
  | whileLoop line cond body =>
    obtain ⟨condCode, middle, bodyCode, _, _, rfl⟩ := compileStmt_whileLoop_ok h
    exact .inl rfl
  | forLoop line init cond step body =>
    obtain ⟨initCode, head, condLine, condCode, middle, bodyCode, stepCode, last, _, _, _, _,
      rfl⟩ := compileStmt_forLoop_ok h
    exact .inl rfl
  | breakLoop line =>
    obtain ⟨_, rfl⟩ := compileStmt_breakLoop_ok h
    exact .inl rfl
  | continueLoop line =>
    obtain ⟨_, rfl⟩ := compileStmt_continueLoop_ok h
    exact .inl rfl
  | leave line =>
    obtain rfl := compileStmt_leave_ok h
    exact .inl rfl

/-- Declarations do not change which loop a scope is in. -/
theorem compileStmt_inLoop {stmt : Stmt} {compiled : StmtCode}
    (h : compileStmt setting stmt scope next = .ok compiled) :
    compiled.scope.inLoop = scope.inLoop := by
  rcases compileStmt_scope h with hscope | ⟨name, slot, hscope⟩ | ⟨constant, hscope⟩
  · rw [hscope]
  · rw [hscope]
    cases scope <;> rfl
  · rw [hscope]
    cases scope <;> rfl

theorem compileOptional_inLoop {choice : Option Stmt} {fragment : Option Fragment}
    {compiled : StmtCode}
    (h : compileOptional setting choice scope next = .ok (fragment, compiled)) :
    compiled.scope.inLoop = scope.inLoop := by
  cases choice with
  | none =>
    obtain ⟨_, rfl⟩ := compileOptional_none_ok h
    rfl
  | some stmt => exact compileStmt_inLoop (compileOptional_some_ok h).1

/-! ## Functions -/

theorem expandCall_ok {function : String} {room : Scope} {depth : Nat} {calls : List String}
    {routine : Routine} {code : Fragment} {behind : Nat}
    (h : expandCall function room depth calls routine next = .ok (code, behind)) :
    ∃ rest inner, depth = rest + 1 ∧ routine.name ∉ calls ∧
      compileStmt ⟨function, true, expandCall function room rest (routine.name :: calls)⟩
        routine.body (room.push .function) next = .ok inner ∧
      code = inner.code.settle (.ofBody inner.code.length) ∧ behind = inner.next := by
  cases depth with
  | zero => exact absurd h (by simp [expandCall])
  | succ rest =>
    rw [expandCall] at h
    split at h
    · exact absurd h (by simp)
    · next hname =>
      obtain ⟨inner, hinner, hrest⟩ := bind_eq_ok_iff.mp h
      obtain ⟨rfl, rfl⟩ := Prod.mk.inj (Except.ok.inj hrest)
      exact ⟨rest, inner, rfl, hname, hinner, rfl, rfl⟩

theorem compileListing_ok {room : Scope} {routine : Routine} {listing : Listing}
    (h : compileListing room routine = .ok listing) :
    ∃ body, compileStmt (.ofRoutine room routine) routine.body (room.push .function) 0 = .ok body ∧
      Fragment.link? (body.code ++ [.stop]) = some listing.instrs ∧ listing.locals = body.next := by
  unfold compileListing at h
  obtain ⟨body, hbody, hrest⟩ := bind_eq_ok_iff.mp h
  refine ⟨body, hbody, ?_⟩
  split at hrest
  · next instrs hlink =>
    obtain rfl := Except.ok.inj hrest
    exact ⟨hlink, rfl⟩
  · exact absurd hrest (by simp)

/-! ## Slots -/

/-- Expansions take slots, and give none back. -/
def Setting.Growing (setting : Setting) : Prop :=
  ∀ routine next code behind, setting.expand routine next = .ok (code, behind) → next ≤ behind

/-- What an expression says about the slots it takes. -/
def ExprGrows (setting : Setting) (scope : Scope) (line : Nat) (expr : Expr) : Prop :=
  ∀ next compiled, compileExpr setting scope line expr next = .ok compiled → next ≤ compiled.next

theorem ExprGrows.value {expr : Expr} (h : ExprGrows setting scope line expr) {code : Fragment}
    {behind : Nat} (hvalue : compileValue setting scope line expr next = .ok (code, behind)) :
    next ≤ behind := by
  obtain ⟨compiled, hcompiled, _, _, rfl⟩ := compileValue_eq_ok_iff.mp hvalue
  exact h next compiled hcompiled

theorem compileArgs_next_le {args : List Expr}
    (h : ∀ arg ∈ args, ExprGrows setting scope line arg) {back : Fragment} {behind : Nat}
    (hargs : compileArgs setting scope line args next = .ok (back, behind)) : next ≤ behind := by
  induction args generalizing next back with
  | nil =>
    rw [compileArgs] at hargs
    obtain ⟨rfl, rfl⟩ := Prod.mk.inj (Except.ok.inj hargs)
    exact Nat.le_refl next
  | cons arg rest ih =>
    obtain ⟨code, middle, restBack, harg, hrest, _⟩ := compileArgs_cons_ok hargs
    have hfirst := (h arg List.mem_cons_self).value harg
    have hlast := ih (fun other hother => h other (List.mem_cons_of_mem arg hother)) hrest
    exact Nat.le_trans hfirst hlast

theorem exprGrows (hgrow : setting.Growing) (scope : Scope) (line : Nat) (expr : Expr) :
    ExprGrows setting scope line expr := by
  induction expr using Expr.induction with
  | int value =>
    intro next compiled h
    obtain ⟨push, _, rfl⟩ := compileExpr_int_ok h
    exact Nat.le_refl next
  | str text =>
    intro next compiled h
    obtain rfl := compileExpr_str_ok h
    exact Nat.le_refl next
  | ident name =>
    intro next compiled h
    obtain ⟨push, _, rfl⟩ := compileExpr_ident_ok h
    exact Nat.le_refl next
  | call name args ih =>
    intro next compiled h
    rcases compileExpr_call_ok h with ⟨builtin, back, _, _, hargs, _, _⟩ | ⟨routine, _, hcall⟩
    · exact compileArgs_next_le ih hargs
    · obtain ⟨_, _, ⟨_, hexpand⟩ | ⟨_, number, _, _, hnext⟩⟩ := callRoutine_ok hcall
      · exact hgrow routine next _ _ hexpand
      · exact Nat.le_of_eq hnext.symm
  | unary op expr ih =>
    intro next compiled h
    obtain ⟨code, hvalue, _, _⟩ := compileExpr_unary_ok h
    exact ih.value hvalue
  | binary op left right ihLeft ihRight =>
    intro next compiled h
    obtain ⟨leftCode, middle, rightCode, hleft, hright, _, _⟩ := compileExpr_binary_ok h
    exact Nat.le_trans (ihLeft.value hleft) (ihRight.value hright)

theorem compileInit_next_le (hgrow : setting.Growing) {init : Option Expr} {code : Fragment}
    {behind : Nat} (h : compileInit setting scope line init next = .ok (code, behind)) :
    next ≤ behind := by
  cases init with
  | none =>
    obtain ⟨rfl, rfl⟩ := Prod.mk.inj (Except.ok.inj h)
    exact Nat.le_refl next
  | some init => exact (exprGrows hgrow scope line init).value h

theorem compileCond_ok {cond : Option Expr} {code : Option Fragment} {behind : Nat}
    (h : compileCond setting scope line cond next = .ok (code, behind)) :
    (cond = none ∧ code = none ∧ behind = next) ∨
      (∃ expr inner, cond = some expr ∧ code = some inner ∧
        compileValue setting scope line expr next = .ok (inner, behind)) := by
  cases cond with
  | none =>
    obtain ⟨rfl, rfl⟩ := Prod.mk.inj (Except.ok.inj h)
    exact .inl ⟨rfl, rfl, rfl⟩
  | some expr =>
    obtain ⟨⟨inner, middle⟩, hvalue, hrest⟩ := bind_eq_ok_iff.mp h
    obtain ⟨rfl, rfl⟩ := Prod.mk.inj (Except.ok.inj hrest)
    exact .inr ⟨expr, inner, rfl, rfl, hvalue⟩

theorem compileCond_some {expr : Expr} {code : Fragment} {behind : Nat}
    (h : compileValue setting scope line expr next = .ok (code, behind)) :
    compileCond setting scope line (some expr) next = .ok (some code, behind) := by
  rw [compileCond, h]
  rfl

theorem compileCond_next_le (hgrow : setting.Growing) {cond : Option Expr} {code : Option Fragment}
    {behind : Nat} (h : compileCond setting scope line cond next = .ok (code, behind)) :
    next ≤ behind := by
  rcases compileCond_ok h with ⟨_, _, rfl⟩ | ⟨expr, inner, _, _, hvalue⟩
  · exact Nat.le_refl behind
  · exact (exprGrows hgrow scope line expr).value hvalue

/-- What a statement says about the slots it takes. -/
def StmtGrows (setting : Setting) (stmt : Stmt) : Prop :=
  ∀ scope next compiled, compileStmt setting stmt scope next = .ok compiled → next ≤ compiled.next

theorem compileStmts_next_le {body : List Stmt} (h : ∀ stmt ∈ body, StmtGrows setting stmt)
    {compiled : StmtCode} (hbody : compileStmts setting body scope next [] = .ok compiled) :
    next ≤ compiled.next := by
  induction body generalizing scope next compiled with
  | nil =>
    rw [compileStmts] at hbody
    obtain rfl := Except.ok.inj hbody
    exact Nat.le_refl next
  | cons stmt rest ih =>
    obtain ⟨first, last, hfirst, hlast, rfl⟩ := compileStmts_cons_ok hbody
    have hhead := h stmt List.mem_cons_self scope next first hfirst
    have htail := ih (fun other hother => h other (List.mem_cons_of_mem stmt hother)) hlast
    exact Nat.le_trans hhead htail

theorem compileOptional_next_le {choice : Option Stmt} (h : ∀ stmt ∈ choice, StmtGrows setting stmt)
    {code : Option Fragment} {compiled : StmtCode}
    (hchoice : compileOptional setting choice scope next = .ok (code, compiled)) :
    next ≤ compiled.next := by
  cases choice with
  | none =>
    obtain ⟨_, rfl⟩ := compileOptional_none_ok hchoice
    exact Nat.le_refl next
  | some stmt => exact h stmt rfl scope next compiled (compileOptional_some_ok hchoice).1

theorem stmtGrows (hgrow : setting.Growing) (stmt : Stmt) : StmtGrows setting stmt := by
  induction stmt using Stmt.induction with
  | block line body ih =>
    intro scope next compiled h
    obtain ⟨inner, hinner, rfl⟩ := compileStmt_block_ok h
    have hrow := compileStmts_next_le ih hinner
    exact hrow
  | var line name init =>
    intro scope next compiled h
    obtain ⟨slot, code, behind, _, hinit, rfl⟩ := compileStmt_var_ok h
    exact Nat.le_of_succ_le (compileInit_next_le hgrow hinit)
  | const line name value =>
    intro scope next compiled h
    obtain rfl := compileStmt_const_ok h
    exact Nat.le_refl next
  | assign line name value =>
    intro scope next compiled h
    obtain ⟨store, code, behind, _, hvalue, rfl⟩ := compileStmt_assign_ok h
    exact (exprGrows hgrow scope line value).value hvalue
  | eval line expr =>
    intro scope next compiled h
    obtain ⟨inner, hinner, rfl⟩ := compileStmt_eval_ok h
    exact exprGrows hgrow scope line expr next inner hinner
  | ifElse line cond yes no ihYes ihNo =>
    intro scope next compiled h
    obtain ⟨condCode, middle, yesCode, noCode, last, hcond, hyes, hno, rfl⟩ :=
      compileStmt_ifElse_ok h
    have hfirst := (exprGrows hgrow scope line cond).value hcond
    have hsecond := ihYes _ _ _ hyes
    have hthird := compileOptional_next_le ihNo hno
    exact Nat.le_trans hfirst (Nat.le_trans hsecond hthird)
  | whileLoop line cond body ih =>
    intro scope next compiled h
    obtain ⟨condCode, middle, bodyCode, hcond, hbody, rfl⟩ := compileStmt_whileLoop_ok h
    have hfirst := (exprGrows hgrow scope line cond).value hcond
    have hsecond := ih _ _ _ hbody
    exact Nat.le_trans hfirst hsecond
  | forLoop line init cond step body ihInit ihStep ihBody =>
    intro scope next compiled h
    obtain ⟨initCode, head, condLine, condCode, middle, bodyCode, stepCode, last, hinit, hcond,
      hbody, hstep, rfl⟩ := compileStmt_forLoop_ok h
    have hfirst := compileOptional_next_le ihInit hinit
    have hsecond := compileCond_next_le hgrow hcond
    have hthird := ihBody _ _ _ hbody
    have hfourth := compileOptional_next_le ihStep hstep
    exact Nat.le_trans hfirst (Nat.le_trans hsecond (Nat.le_trans hthird hfourth))
  | breakLoop line =>
    intro scope next compiled h
    obtain ⟨_, rfl⟩ := compileStmt_breakLoop_ok h
    exact Nat.le_refl next
  | continueLoop line =>
    intro scope next compiled h
    obtain ⟨_, rfl⟩ := compileStmt_continueLoop_ok h
    exact Nat.le_refl next
  | leave line =>
    intro scope next compiled h
    obtain rfl := compileStmt_leave_ok h
    exact Nat.le_refl next

/-- An expanded body takes slots, and gives none back. -/
theorem expandCall_growing (function : String) (room : Scope) (depth : Nat) (calls : List String)
    (inlined : Bool) :
    Setting.Growing ⟨function, inlined, expandCall function room depth calls⟩ := by
  induction depth generalizing calls inlined with
  | zero =>
    intro routine next code behind h
    obtain ⟨_, _, hdepth, _⟩ := expandCall_ok h
    exact absurd hdepth (by simp)
  | succ depth ih =>
    intro routine next code behind h
    obtain ⟨rest, inner, hdepth, _, hinner, _, rfl⟩ := expandCall_ok h
    obtain rfl := Nat.succ.inj hdepth
    exact stmtGrows (ih _ true) routine.body _ _ _ hinner

/-! ## Bytes -/

/-- Code is encoded without the faults that its jumps do not have. -/
theorem encode_avoids_of_jumps {bad : CompileError → Prop} {function : String}
    {instrs : List (Instr Nat)}
    (h : ∀ (index : Nat) (instr : Instr Nat), instrs[index]? = some instr →
      ∀ target ∈ instr.target?,
        Avoids bad (jumpDistance function (byteStarts instrs) index target)) :
    Avoids bad (encode function instrs) := by
  refine (Avoids.mapM ?_).bind fun parts _ => .ok
  rintro ⟨instr, index⟩ hmem
  have hinstr := List.mem_zipIdx_iff_getElem?.mp hmem
  refine Avoids.bind ?_ fun operands _ => .ok
  cases instr with
  | jump target | jumpIfFalse target => exact (h index _ hinstr target rfl).map
  | _ => exact .ok

/-- Encoding fails at nothing but jumps. -/
theorem encode_avoids_unless_jumps {bad : CompileError → Prop} {function : String}
    (hlarge : ¬ bad (.tooLarge function)) (hdangling : ¬ bad (.danglingJump function))
    (instrs : List (Instr Nat)) : Avoids bad (encode function instrs) := by
  refine encode_avoids_of_jumps fun index instr _ target _ => ?_
  unfold jumpDistance
  split
  · dsimp only
    split
    · exact .ok
    · exact .error hlarge
  · exact .error hdangling

end RoomForge.Code
