import RoomForge.Proofs.Emission

set_option autoImplicit false

/-! # The slots that variables get

A function's variables are those of its own statements and, at each call of an inlined function,
those of the function called, in the order in which they are compiled (specification, section 4.3,
locals). `allotments` lists them, each with the slot that it got. A variable is on the list as soon
as compilation comes to it, so the list speaks of functions that are refused as well: one is refused
for its variables if and only if there are more of them than a frame has slots.

`allotments_account` ties the list to the compiler. What follows for functions is in
`Proofs.Assignment`.
-/

namespace RoomForge.Code

open RoomForge.Script

/-! ## The variables of a function -/

/-- A variable that compilation came to. -/
structure Allotment where
  line : Nat
  name : String
  /-- The slot that the variable got, if it got one. -/
  slot : Option UInt8
  deriving DecidableEq, Repr, Inhabited

/-- The slot at which a statement declares `name`: what the name stands for behind the statement, if
the last thing that the statement does is to store there. -/
def declaredAt? (name : String) : Except CompileError StmtCode → Option UInt8
  | .error _ => none
  | .ok compiled =>
    match compiled.scope.resolve? name with
    | some (.slot slot) =>
      if compiled.code.getLast? = some (.storeLocal slot) then some slot else none
    | _ => none

/-- The variables behind a computation, none of which are reached if it fails. -/
def allotsBehind {α : Type} (outcome : Except CompileError α) (rest : α → List Allotment) :
    List Allotment :=
  match outcome with
  | .ok value => rest value
  | .error _ => []

/-- A setting, and the variables of the functions that are expanded in it. -/
structure Ledger where
  setting : Setting
  /-- The variables of an inlined function at a call where the slot `next` is the first free one. -/
  expansion : (routine : Routine) → (next : Nat) → List Allotment

mutual

/-- The variables that an expression in a statement on `line` comes to. -/
def allotsOfExpr (ledger : Ledger) (scope : Scope) (line : Nat) :
    Expr → (next : Nat) → List Allotment
  | .int _, _ | .str _, _ | .ident _, _ => []
  | .call name args, next =>
    match scope.resolve? name with
    | some (.builtin builtin) =>
      if args.length ≠ builtin.arity then [] else allotsOfArgs ledger scope line args next
    | some (.routine routine) =>
      if args.length ≠ 0 then []
      else if routine.isInlined then ledger.expansion routine next
      else []
    | _ => []
  | .unary _ operand, next => allotsOfExpr ledger scope line operand next
  | .binary _ left right, next =>
    allotsOfExpr ledger scope line left next ++
      allotsBehind (compileValue ledger.setting scope line left next) fun (_, next) =>
        allotsOfExpr ledger scope line right next

/-- The variables that a call's arguments come to. -/
def allotsOfArgs (ledger : Ledger) (scope : Scope) (line : Nat) :
    List Expr → (next : Nat) → List Allotment
  | [], _ => []
  | arg :: rest, next =>
    allotsOfExpr ledger scope line arg next ++
      allotsBehind (compileValue ledger.setting scope line arg next) fun (_, next) =>
        allotsOfArgs ledger scope line rest next

end

/-- The variables that an expression comes to, if there is one. -/
def allotsOfChoice (ledger : Ledger) (scope : Scope) (line : Nat) (expr : Option Expr)
    (next : Nat) : List Allotment :=
  match expr with
  | some expr => allotsOfExpr ledger scope line expr next
  | none => []

mutual

/-- The variables that a statement comes to: its own ones, and those of the functions expanded at
its calls. -/
def allotsOfStmt (ledger : Ledger) : Stmt → Scope → (next : Nat) → List Allotment
  | .block _ body, scope, next => allotsOfBody ledger body (scope.push .block) next
  | .var line name init, scope, next =>
    let slot := declaredAt? name (compileStmt ledger.setting (.var line name init) scope next)
    ⟨line, name, slot⟩ :: allotsBehind (newSlot ledger.setting.function next) fun _ =>
      allotsOfChoice ledger scope line init (next + 1)
  | .assign line name value, scope, next =>
    allotsBehind (storeName (ledger.setting.site line) scope name) fun _ =>
      allotsOfExpr ledger scope line value next
  | .eval line expr, scope, next => allotsOfExpr ledger scope line expr next
  | .ifElse line cond yes no, scope, next =>
    allotsOfExpr ledger scope line cond next ++
      allotsBehind (compileValue ledger.setting scope line cond next) fun (_, next) =>
        allotsOfStmt ledger yes (scope.push .block) next ++
          allotsBehind (compileStmt ledger.setting yes (scope.push .block) next) fun yes =>
            allotsOfOptional ledger no (scope.push .block) yes.next
  | .whileLoop line cond body, scope, next =>
    allotsOfExpr ledger scope line cond next ++
      allotsBehind (compileValue ledger.setting scope line cond next) fun (_, next) =>
        allotsOfStmt ledger body (scope.push .loop) next
  | .forLoop line init cond step body, scope, next =>
    allotsOfOptional ledger init (scope.push .block) next ++
      allotsBehind (compileOptional ledger.setting init (scope.push .block) next) fun (_, head) =>
        let line := (lastLine? init).getD line
        allotsOfChoice ledger head.scope line cond head.next ++
          allotsBehind (compileCond ledger.setting head.scope line cond head.next)
            fun (_, next) =>
              allotsOfStmt ledger body (head.scope.push .loop) next ++
                allotsBehind (compileStmt ledger.setting body (head.scope.push .loop) next)
                  fun body => allotsOfOptional ledger step head.scope body.next
  | .const .., _, _ | .breakLoop _, _, _ | .continueLoop _, _, _ | .leave _, _, _ => []

/-- The variables that a row of statements comes to. -/
def allotsOfBody (ledger : Ledger) : List Stmt → Scope → (next : Nat) → List Allotment
  | [], _, _ => []
  | stmt :: rest, scope, next =>
    allotsOfStmt ledger stmt scope next ++
      allotsBehind (compileStmt ledger.setting stmt scope next) fun compiled =>
        allotsOfBody ledger rest compiled.scope compiled.next

/-- The variables that a statement comes to, if there is one. -/
def allotsOfOptional (ledger : Ledger) : Option Stmt → Scope → (next : Nat) → List Allotment
  | none, _, _ => []
  | some stmt, scope, next => allotsOfStmt ledger stmt scope next

end

/-- The variables of an inlined function at a call. -/
def allotsOfCall (function : String) (room : Scope) :
    (depth : Nat) → (calls : List String) → (routine : Routine) → (next : Nat) → List Allotment
  | 0, _, _, _ => []
  | depth + 1, calls, routine, next =>
    if routine.name ∈ calls then []
    else
      let calls := routine.name :: calls
      allotsOfStmt ⟨⟨function, true, expandCall function room depth calls⟩,
        allotsOfCall function room depth calls⟩ routine.body (room.push .function) next

/-- The variables of a function and of the functions inlined in it, in the order in which they are
compiled. -/
def allotments (room : Scope) (routine : Routine) : List Allotment :=
  allotsOfStmt ⟨.ofRoutine room routine,
    allotsOfCall routine.name room (room.routines.length + 1) []⟩ routine.body
    (room.push .function) 0

/-! ## Accounts -/

/-- The variables `allots` account for a computation that finds the slots below `next` taken. If it
succeeds they have got the slots from there on, each its own, and the slots below `behind` are
taken; and they are too many for a frame just if that is why it fails. -/
structure Accounts {α : Type} (function : String) (next : Nat) (allots : List Allotment)
    (outcome : Except CompileError α) (behind : α → Nat) : Prop where
  taken : ∀ value, outcome = .ok value → behind value = next + allots.length
  slots : ∀ value, outcome = .ok value →
    allots.map (·.slot.map UInt8.toNat) = (List.range' next allots.length).map some
  refused : outcome = .error (.tooManyLocals function) ↔ 256 < next + allots.length

namespace Accounts

variable {α β : Type} {function : String} {next : Nat} {allots : List Allotment}
  {outcome : Except CompileError α} {behind : α → Nat}

theorem taken_le (h : Accounts function next allots outcome behind) {value : α}
    (hvalue : outcome = .ok value) : behind value ≤ 256 := by
  rw [h.taken value hvalue]
  refine Nat.le_of_not_lt fun hlt => ?_
  rw [h.refused.mpr hlt] at hvalue
  exact absurd hvalue (by simp)

/-- A computation that declares nothing. -/
theorem plain (hnext : next ≤ 256) (hplain : Avoids (· = .tooManyLocals function) outcome)
    (hbehind : ∀ value, outcome = .ok value → behind value = next) :
    Accounts function next [] outcome behind where
  taken := hbehind
  slots _ _ := rfl
  refused := by
    refine iff_of_false (fun hfault => hplain _ hfault rfl) ?_
    exact Nat.not_lt_of_le hnext

theorem ok {value : α} (hnext : next ≤ 256) (hbehind : behind value = next) :
    Accounts function next [] (.ok value) behind :=
  plain hnext .ok fun _ hvalue => Except.ok.inj hvalue ▸ hbehind

theorem error {fault : CompileError} (hnext : next ≤ 256)
    (hfault : fault ≠ .tooManyLocals function) : Accounts function next [] (.error fault) behind :=
  plain hnext (.error hfault) fun _ hvalue => absurd hvalue (by simp)

/-- A variable takes the first slot that is free. -/
theorem declare {allot : Allotment} (h : Accounts function (next + 1) allots outcome behind)
    (hslot : ∀ value, outcome = .ok value → allot.slot.map UInt8.toNat = some next) :
    Accounts function next (allot :: allots) outcome behind where
  taken value hvalue := by
    rw [h.taken value hvalue, List.length_cons]
    omega
  slots value hvalue := by
    rw [List.map_cons, List.length_cons, List.range'_succ, List.map_cons, hslot value hvalue,
      h.slots value hvalue]
  refused := by
    rw [h.refused, List.length_cons]
    omega

/-- There is no slot for a variable in a frame that is full. -/
theorem full {allot : Allotment} (hnext : 256 ≤ next) :
    Accounts function next [allot] (.error (.tooManyLocals function)) behind where
  taken value hvalue := absurd hvalue (by simp)
  slots value hvalue := absurd hvalue (by simp)
  refused := iff_of_true rfl (Nat.lt_succ_of_le hnext)

/-- The variables of the second of two computations follow those of the first. -/
theorem bind {rest : α → Except CompileError β} {behind' : β → Nat}
    {restAllots : α → List Allotment} (h : Accounts function next allots outcome behind)
    (hrest : ∀ value, outcome = .ok value → behind value ≤ 256 →
      Accounts function (behind value) (restAllots value) (rest value) behind') :
    Accounts function next (allots ++ allotsBehind outcome restAllots) (outcome >>= rest)
      behind' := by
  cases houtcome : outcome with
  | error fault =>
    have hrefused := h.refused
    rw [houtcome] at hrefused
    rw [allotsBehind, List.append_nil]
    refine ⟨fun value hvalue => ?_, fun value hvalue => ?_, ?_⟩
    · exact absurd hvalue (by simp [Bind.bind, Except.bind])
    · exact absurd hvalue (by simp [Bind.bind, Except.bind])
    · simpa [Bind.bind, Except.bind] using hrefused
  | ok value =>
    have hvalue := hrest value houtcome (h.taken_le houtcome)
    have htaken := h.taken value houtcome
    have hlength : (allots ++ restAllots value).length =
        allots.length + (restAllots value).length := List.length_append
    rw [htaken] at hvalue
    show Accounts function next (allots ++ restAllots value) (rest value) behind'
    refine ⟨fun result hresult => ?_, fun result hresult => ?_, ?_⟩
    · rw [hvalue.taken result hresult, hlength, Nat.add_assoc]
    · rw [hlength, ← List.range'_append_1, List.map_append, List.map_append,
        h.slots value houtcome, hvalue.slots result hresult]
    · rw [hvalue.refused, hlength, Nat.add_assoc]

/-- What follows a computation declares nothing. -/
theorem followed {rest : α → Except CompileError β} {behind' : β → Nat}
    (h : Accounts function next allots outcome behind)
    (hplain : ∀ value, Avoids (· = .tooManyLocals function) (rest value))
    (hbehind : ∀ value result, rest value = .ok result → behind' result = behind value) :
    Accounts function next allots (outcome >>= rest) behind' := by
  have hboth : Accounts function next (allots ++ allotsBehind outcome fun _ => [])
      (outcome >>= rest) behind' :=
    h.bind fun value _ hle => .plain hle (hplain value) (hbehind value)
  cases outcome <;> simpa [allotsBehind] using hboth

/-- What a computation gives is put into another form. -/
theorem mapped {f : α → β} {behind' : β → Nat}
    (h : Accounts function next allots outcome behind)
    (hbehind : ∀ value, behind' (f value) = behind value) :
    Accounts function next allots (outcome >>= fun value => .ok (f value)) behind' :=
  h.followed (fun _ => .ok) fun value _ hresult => Except.ok.inj hresult ▸ hbehind value

/-- What precedes a computation declares nothing. -/
theorem preceded {rest : α → Except CompileError β} {behind' : β → Nat}
    {restAllots : α → List Allotment} (hnext : next ≤ 256)
    (hplain : Avoids (· = .tooManyLocals function) outcome)
    (hrest : ∀ value, Accounts function next (restAllots value) (rest value) behind') :
    Accounts function next (allotsBehind outcome restAllots) (outcome >>= rest) behind' := by
  have hfirst : Accounts function next [] outcome fun _ => next :=
    .plain hnext hplain fun _ _ => rfl
  exact hfirst.bind fun value _ _ => hrest value

end Accounts

/-! ## Expressions -/

theorem ne_tooManyLocals_of_isMisfit {function : String} (fault : CompileError)
    (h : fault.IsMisfit) : fault ≠ .tooManyLocals function := by
  rintro rfl
  exact h

section

variable {ledger : Ledger} {scope : Scope} {line next : Nat}

/-- An operand inside of a longer computation is an expression that has to leave a value. -/
theorem operand_bind {α : Type} (setting : Setting) (scope : Scope) (line : Nat) (expr : Expr)
    (next : Nat) (rest : Fragment × Nat → Except CompileError α) :
    (compileExpr setting scope line expr next >>= fun compiled =>
      requireValue (setting.site line) expr compiled >>= rest) =
    compileValue setting scope line expr next >>= fun piece => rest (piece.1.reverse, piece.2) := by
  unfold compileValue
  rw [bind_assoc]
  congr 1
  funext compiled
  unfold requireValue
  split
  · show rest (compiled.back, compiled.next) = rest (compiled.back.reverse.reverse, compiled.next)
    rw [List.reverse_reverse]
  · rfl

/-- The variables listed for expansions account for them. -/
def Ledger.Sound (ledger : Ledger) : Prop :=
  ∀ routine next, next ≤ 256 → Accounts ledger.setting.function next
    (ledger.expansion routine next) (ledger.setting.expand routine next) Prod.snd

/-- The variables listed for an expression account for it. -/
def ExprAccounts (ledger : Ledger) (scope : Scope) (line : Nat) (expr : Expr) : Prop :=
  ∀ next ≤ 256, Accounts ledger.setting.function next (allotsOfExpr ledger scope line expr next)
    (compileExpr ledger.setting scope line expr next) ExprCode.next

theorem ExprAccounts.value {expr : Expr} (h : ExprAccounts ledger scope line expr)
    (hnext : next ≤ 256) :
    Accounts ledger.setting.function next (allotsOfExpr ledger scope line expr next)
      (compileValue ledger.setting scope line expr next) Prod.snd := by
  refine (h next hnext).followed (fun compiled => ?_) fun compiled piece hpiece => ?_
  · exact (requireValue_avoids ne_tooManyLocals_of_isMisfit _ _ _).bind fun _ _ => .ok
  · obtain ⟨⟨back, behind⟩, hvalue, hrest⟩ := bind_eq_ok_iff.mp hpiece
    obtain rfl := Except.ok.inj hrest
    unfold requireValue at hvalue
    split at hvalue
    · exact congrArg Prod.snd (Except.ok.inj hvalue).symm
    · exact absurd hvalue (by simp)

theorem compileArgs_accounts {args : List Expr}
    (h : ∀ arg ∈ args, ExprAccounts ledger scope line arg) (hnext : next ≤ 256) :
    Accounts ledger.setting.function next (allotsOfArgs ledger scope line args next)
      (compileArgs ledger.setting scope line args next) Prod.snd := by
  induction args generalizing next with
  | nil =>
    rw [allotsOfArgs, compileArgs]
    exact .ok hnext rfl
  | cons arg rest ih =>
    rw [allotsOfArgs, compileArgs, operand_bind]
    refine ((h arg List.mem_cons_self).value hnext).bind fun piece _ hle => ?_
    have hrest := ih (fun other hother => h other (List.mem_cons_of_mem arg hother)) hle
    exact hrest.mapped fun _ => rfl

theorem callRoutine_accounts (hledger : ledger.Sound) (site : Site) (name : String)
    (routine : Routine) (argc : Nat) (hnext : next ≤ 256) :
    Accounts ledger.setting.function next
      (if argc ≠ 0 then [] else if routine.isInlined then ledger.expansion routine next else [])
      (callRoutine ledger.setting site name routine argc next) ExprCode.next := by
  unfold callRoutine
  split
  · exact .error hnext (by simp)
  · split
    · exact (hledger routine next hnext).mapped fun _ => rfl
    · split
      · exact .ok hnext rfl
      · exact .error hnext (by simp)

theorem exprAccounts (hledger : ledger.Sound) (scope : Scope) (line : Nat) (expr : Expr) :
    ExprAccounts ledger scope line expr := by
  induction expr using Expr.induction with
  | int value =>
    intro next hnext
    rw [allotsOfExpr, compileExpr]
    have hpush : Accounts ledger.setting.function next []
        (pushNumber (ledger.setting.site line) value) fun _ => next :=
      .plain hnext (pushNumber_avoids ne_tooManyLocals_of_isMisfit _ _) fun _ _ => rfl
    exact hpush.mapped fun _ => rfl
  | str text =>
    intro next hnext
    rw [allotsOfExpr, compileExpr]
    exact .ok hnext rfl
  | ident name =>
    intro next hnext
    rw [allotsOfExpr, compileExpr]
    have hpush : Accounts ledger.setting.function next []
        (pushName (ledger.setting.site line) scope name) fun _ => next :=
      .plain hnext (pushName_avoids ne_tooManyLocals_of_isMisfit _ _ _) fun _ _ => rfl
    exact hpush.mapped fun _ => rfl
  | call name args ih =>
    intro next hnext
    rw [allotsOfExpr, compileExpr]
    cases scope.resolve? name with
    | none => exact .error hnext (by simp)
    | some meaning =>
      cases meaning with
      | builtin builtin =>
        dsimp only
        split
        · exact .error hnext (by simp)
        · exact (compileArgs_accounts ih hnext).mapped fun _ => rfl
      | routine routine => exact callRoutine_accounts hledger _ name routine args.length hnext
      | constant | slot | global => exact .error hnext (by simp)
  | unary op operand ih =>
    intro next hnext
    rw [allotsOfExpr, compileExpr, operand_bind]
    exact (ih.value hnext).mapped fun _ => rfl
  | binary op left right ihLeft ihRight =>
    intro next hnext
    rw [allotsOfExpr, compileExpr, operand_bind]
    refine (ihLeft.value hnext).bind fun piece _ hle => ?_
    dsimp only
    rw [operand_bind]
    exact (ihRight.value hle).mapped fun _ => rfl

theorem compileInit_accounts (hledger : ledger.Sound) (scope : Scope) (line : Nat)
    (init : Option Expr) (hnext : next ≤ 256) :
    Accounts ledger.setting.function next (allotsOfChoice ledger scope line init next)
      (compileInit ledger.setting scope line init next) Prod.snd := by
  cases init with
  | none => exact .ok hnext rfl
  | some init => exact (exprAccounts hledger scope line init).value hnext

theorem compileCond_accounts (hledger : ledger.Sound) (scope : Scope) (line : Nat)
    (cond : Option Expr) (hnext : next ≤ 256) :
    Accounts ledger.setting.function next (allotsOfChoice ledger scope line cond next)
      (compileCond ledger.setting scope line cond next) Prod.snd := by
  cases cond with
  | none => exact .ok hnext rfl
  | some cond =>
    exact ((exprAccounts hledger scope line cond).value hnext).mapped fun _ => rfl

/-! ## Statements -/

theorem Scope.resolve?_declareLocal (hscope : scope ≠ []) (name : String) (slot : UInt8) :
    (scope.declareLocal name slot).resolve? name = some (.slot slot) := by
  cases scope with
  | nil => exact absurd rfl hscope
  | cons frame outer => simp [Scope.declareLocal, Scope.resolve?, Frame.find?]

theorem compileStmt_scope_ne_nil {setting : Setting} {stmt : Stmt} {compiled : StmtCode}
    (h : compileStmt setting stmt scope next = .ok compiled) (hscope : scope ≠ []) :
    compiled.scope ≠ [] := by
  rcases compileStmt_scope h with heq | ⟨name, slot, heq⟩ | ⟨constant, heq⟩
  · rwa [heq]
  · rw [heq]
    simpa [Scope.declareLocal] using hscope
  · rw [heq]
    simpa [Scope.declareConst] using hscope

/-- A variable is declared at the first slot that is free. -/
theorem declaredAt?_var {setting : Setting} {name : String} {init : Option Expr}
    {compiled : StmtCode} (hscope : scope ≠ [])
    (h : compileStmt setting (.var line name init) scope next = .ok compiled) :
    (declaredAt? name (compileStmt setting (.var line name init) scope next)).map UInt8.toNat =
      some next := by
  rw [h]
  obtain ⟨slot, code, behind, hslot, _, rfl⟩ := compileStmt_var_ok h
  rw [declaredAt?, Scope.resolve?_declareLocal hscope]
  simp [(newSlot_ok hslot).2]

/-- The variables listed for a statement account for it. -/
def StmtAccounts (ledger : Ledger) (stmt : Stmt) : Prop :=
  ∀ (scope : Scope) (next : Nat), scope ≠ [] → next ≤ 256 →
    Accounts ledger.setting.function next (allotsOfStmt ledger stmt scope next)
      (compileStmt ledger.setting stmt scope next) StmtCode.next

theorem compileStmts_accounts {body : List Stmt} (h : ∀ stmt ∈ body, StmtAccounts ledger stmt)
    (taken : List Fragment) (hscope : scope ≠ []) (hnext : next ≤ 256) :
    Accounts ledger.setting.function next (allotsOfBody ledger body scope next)
      (compileStmts ledger.setting body scope next taken) StmtCode.next := by
  induction body generalizing scope next taken with
  | nil =>
    rw [allotsOfBody, compileStmts]
    exact .ok hnext rfl
  | cons stmt rest ih =>
    rw [allotsOfBody, compileStmts]
    refine (h stmt List.mem_cons_self scope next hscope hnext).bind fun compiled hcompiled hle => ?_
    exact ih (fun other hother => h other (List.mem_cons_of_mem stmt hother)) _
      (compileStmt_scope_ne_nil hcompiled hscope) hle

theorem compileOptional_accounts {choice : Option Stmt}
    (h : ∀ stmt ∈ choice, StmtAccounts ledger stmt) (hscope : scope ≠ []) (hnext : next ≤ 256) :
    Accounts ledger.setting.function next (allotsOfOptional ledger choice scope next)
      (compileOptional ledger.setting choice scope next) (·.2.next) := by
  cases choice with
  | none =>
    rw [allotsOfOptional, compileOptional]
    exact .ok hnext rfl
  | some stmt =>
    rw [allotsOfOptional, compileOptional]
    exact (h stmt rfl scope next hscope hnext).mapped fun _ => rfl

theorem compileOptional_scope_ne_nil {setting : Setting} {choice : Option Stmt}
    {piece : Option Fragment × StmtCode}
    (h : compileOptional setting choice scope next = .ok piece) (hscope : scope ≠ []) :
    piece.2.scope ≠ [] := by
  cases choice with
  | none =>
    obtain ⟨_, hpiece⟩ := compileOptional_none_ok h
    rwa [hpiece]
  | some stmt => exact compileStmt_scope_ne_nil (compileOptional_some_ok h).1 hscope

theorem var_accounts (hledger : ledger.Sound) (line : Nat) (name : String) (init : Option Expr) :
    StmtAccounts ledger (.var line name init) := by
  intro scope next hscope hnext
  rw [allotsOfStmt]
  by_cases hlt : next < 256
  · have hnew : newSlot ledger.setting.function next = .ok (UInt8.ofNat next) := if_pos hlt
    have hinit := compileInit_accounts hledger scope line init (Nat.succ_le_of_lt hlt)
    have hrest : Accounts ledger.setting.function (next + 1)
        (allotsOfChoice ledger scope line init (next + 1))
        (compileStmt ledger.setting (.var line name init) scope next) StmtCode.next := by
      rw [compileStmt, hnew]
      exact hinit.mapped fun _ => rfl
    rw [hnew]
    exact hrest.declare fun compiled hcompiled => declaredAt?_var hscope hcompiled
  · have hnew : newSlot ledger.setting.function next =
        .error (.tooManyLocals ledger.setting.function) := if_neg hlt
    rw [hnew, compileStmt, hnew]
    exact .full (Nat.le_of_not_lt hlt)

/-- The variables that are listed for a statement are those that its compilation comes to. -/
theorem stmtAccounts (hledger : ledger.Sound) (stmt : Stmt) : StmtAccounts ledger stmt := by
  induction stmt using Stmt.induction with
  | block line body ih =>
    intro scope next hscope hnext
    rw [allotsOfStmt, compileStmt]
    exact (compileStmts_accounts ih [] (List.cons_ne_nil _ _) hnext).mapped fun _ => rfl
  | var line name init => exact var_accounts hledger line name init
  | const line name value =>
    intro scope next _ hnext
    rw [allotsOfStmt, compileStmt]
    exact .ok hnext rfl
  | assign line name value =>
    intro scope next _ hnext
    rw [allotsOfStmt, compileStmt]
    refine .preceded hnext (storeName_avoids ne_tooManyLocals_of_isMisfit _ _ _) fun store => ?_
    exact ((exprAccounts hledger scope line value).value hnext).mapped fun _ => rfl
  | eval line expr =>
    intro scope next _ hnext
    rw [allotsOfStmt, compileStmt]
    exact (exprAccounts hledger scope line expr next hnext).mapped fun _ => rfl
  | ifElse line cond yes no ihYes ihNo =>
    intro scope next _ hnext
    rw [allotsOfStmt, compileStmt]
    refine ((exprAccounts hledger scope line cond).value hnext).bind fun piece _ hle => ?_
    refine (ihYes _ _ (List.cons_ne_nil _ _) hle).bind fun first _ hle => ?_
    exact (compileOptional_accounts ihNo (List.cons_ne_nil _ _) hle).mapped fun _ => rfl
  | whileLoop line cond body ih =>
    intro scope next _ hnext
    rw [allotsOfStmt, compileStmt]
    refine ((exprAccounts hledger scope line cond).value hnext).bind fun piece _ hle => ?_
    exact (ih _ _ (List.cons_ne_nil _ _) hle).mapped fun _ => rfl
  | forLoop line init cond step body ihInit ihStep ihBody =>
    intro scope next _ hnext
    rw [allotsOfStmt, compileStmt]
    refine (compileOptional_accounts ihInit (List.cons_ne_nil _ _) hnext).bind
      fun head hhead hle => ?_
    have hinside : head.2.scope ≠ [] := compileOptional_scope_ne_nil hhead (List.cons_ne_nil _ _)
    refine (compileCond_accounts hledger _ _ cond hle).bind fun piece _ hle => ?_
    refine (ihBody _ _ (List.cons_ne_nil _ _) hle).bind fun inner _ hle => ?_
    exact (compileOptional_accounts ihStep hinside hle).mapped fun _ => rfl
  | breakLoop line | continueLoop line =>
    intro scope next _ hnext
    rw [allotsOfStmt, compileStmt]
    split
    · exact .ok hnext rfl
    · exact .error hnext (by simp)
  | leave line =>
    intro scope next _ hnext
    rw [allotsOfStmt, compileStmt]
    exact .ok hnext rfl

end

/-! ## Functions -/

/-- The variables listed for the functions that are expanded in a body account for them. -/
theorem allotsOfCall_sound (function : String) (room : Scope) (depth : Nat) (calls : List String)
    (inlined : Bool) :
    Ledger.Sound ⟨⟨function, inlined, expandCall function room depth calls⟩,
      allotsOfCall function room depth calls⟩ := by
  induction depth generalizing calls inlined with
  | zero => exact fun routine next hnext => .error hnext (by simp)
  | succ depth ih =>
    intro routine next hnext
    show Accounts function next (allotsOfCall function room (depth + 1) calls routine next)
      (expandCall function room (depth + 1) calls routine next) Prod.snd
    rw [allotsOfCall, expandCall]
    split
    · exact .error hnext (by simp)
    · have hbody := stmtAccounts (ih (routine.name :: calls) true) routine.body
        (room.push .function) next (List.cons_ne_nil _ _) hnext
      exact hbody.mapped fun _ => rfl

/-- The variables of a function account for its code. -/
theorem allotments_account (room : Scope) (routine : Routine) :
    Accounts routine.name 0 (allotments room routine)
      (compileStmt (.ofRoutine room routine) routine.body (room.push .function) 0)
      StmtCode.next :=
  stmtAccounts (allotsOfCall_sound routine.name room (room.routines.length + 1) [] false)
    routine.body (room.push .function) 0 (List.cons_ne_nil _ _) (Nat.zero_le 256)

end RoomForge.Code
