import RoomForge.Proofs.Emission

set_option autoImplicit false

/-! # Functions that bodies call

A call of an inlined function becomes its body (specification, section 4.3). Which inlined functions
a tree calls is read off the tree and the names in scope, without compiling anything. Compiling the
tree asks for the code of exactly these functions: it succeeds only if there is code for all of
them, and depends on no others. `body_asks` says so of bodies; `Proofs.Inlining` follows the calls
on.
-/

namespace RoomForge.Code

open RoomForge.Script

/-! ## The inlined functions that a tree calls -/

/-- The inlined functions that are known by their names at some place. -/
abbrev Known := String → Option Routine

/-- What is known behind a declaration of `name`. -/
def Known.hide (known : Known) (name : String) : Known :=
  fun other => if other = name then none else known other

/-- The inlined function that a name stands for. -/
def Scope.inlined? (scope : Scope) : Known := fun name =>
  match scope.resolve? name with
  | some (.routine routine) => if routine.isInlined then some routine else none
  | _ => none

mutual

/-- The inlined functions that an expression calls. -/
def calleesOfExpr (known : Known) : Expr → List Routine
  | .int _ | .str _ | .ident _ => []
  | .call name args => (known name).toList ++ calleesOfRow known args
  | .unary _ operand => calleesOfExpr known operand
  | .binary _ left right => calleesOfExpr known left ++ calleesOfExpr known right

/-- The inlined functions that a row of expressions calls. -/
def calleesOfRow (known : Known) : List Expr → List Routine
  | [] => []
  | expr :: rest => calleesOfExpr known expr ++ calleesOfRow known rest

end

/-- What is known behind a statement, which may declare a name. -/
def Known.behind (known : Known) : Stmt → Known
  | .var _ name _ | .const _ name _ => known.hide name
  | _ => known

/-- What is known behind a statement that may be missing. -/
def Known.behind? (known : Known) : Option Stmt → Known
  | none => known
  | some stmt => known.behind stmt

mutual

/-- The inlined functions that a statement calls. The head of a loop declares names for the loop
alone, and a block for the statements that follow in the block. -/
def calleesOfStmt : Stmt → Known → List Routine
  | .block _ body, known => calleesOfBody body known
  | .var _ _ init, known => calleesOfRow known init.toList
  | .assign _ _ value, known => calleesOfExpr known value
  | .eval _ expr, known => calleesOfExpr known expr
  | .ifElse _ cond yes no, known =>
    calleesOfExpr known cond ++ (calleesOfStmt yes known ++ calleesOfOptional no known)
  | .whileLoop _ cond body, known => calleesOfExpr known cond ++ calleesOfStmt body known
  | .forLoop _ init cond step body, known =>
    calleesOfOptional init known ++
      (calleesOfRow (known.behind? init) cond.toList ++
        (calleesOfStmt body (known.behind? init) ++ calleesOfOptional step (known.behind? init)))
  | .const .., _ | .breakLoop _, _ | .continueLoop _, _ | .leave _, _ => []

/-- The inlined functions that a row of statements calls. -/
def calleesOfBody : List Stmt → Known → List Routine
  | [], _ => []
  | stmt :: rest, known => calleesOfStmt stmt known ++ calleesOfBody rest (known.behind stmt)

/-- The inlined functions that a statement calls that may be missing. -/
def calleesOfOptional : Option Stmt → Known → List Routine
  | none, _ => []
  | some stmt, known => calleesOfStmt stmt known

end

/-- The body of `caller` calls the inlined function `callee` under the names of the room. -/
def Inlines (room : Scope) (caller callee : Routine) : Prop :=
  callee ∈ calleesOfStmt caller.body room.inlined?

/-! ## Callees are known -/

theorem Known.of_hide {known : Known} {name other : String} {routine : Routine}
    (h : known.hide name other = some routine) : known other = some routine := by
  unfold Known.hide at h
  split at h
  · exact absurd h (by simp)
  · exact h

theorem Known.of_behind {known : Known} {stmt : Stmt} {name : String} {routine : Routine}
    (h : known.behind stmt name = some routine) : known name = some routine := by
  cases stmt with
  | var | const => exact of_hide h
  | _ => exact h

theorem Known.of_behind? {known : Known} {stmt : Option Stmt} {name : String} {routine : Routine}
    (h : known.behind? stmt name = some routine) : known name = some routine := by
  cases stmt with
  | none => exact h
  | some stmt => exact of_behind h

section

variable {known : Known} {callee : Routine}

theorem known_of_mem_row {row : List Expr}
    (hrow : ∀ expr ∈ row, callee ∈ calleesOfExpr known expr → ∃ name, known name = some callee)
    (h : callee ∈ calleesOfRow known row) : ∃ name, known name = some callee := by
  induction row with
  | nil => exact absurd h (by simp [calleesOfRow])
  | cons expr rest ih =>
    rw [List.forall_mem_cons] at hrow
    rw [calleesOfRow, List.mem_append] at h
    exact h.elim hrow.1 (ih hrow.2)

theorem known_of_mem_expr {expr : Expr} (h : callee ∈ calleesOfExpr known expr) :
    ∃ name, known name = some callee := by
  induction expr using Expr.induction with
  | int | str | ident => exact absurd h (by simp [calleesOfExpr])
  | call name args ih =>
    rw [calleesOfExpr, List.mem_append] at h
    exact h.elim (fun hname => ⟨name, Option.mem_toList.mp hname⟩) (known_of_mem_row ih)
  | unary op operand ih =>
    rw [calleesOfExpr] at h
    exact ih h
  | binary op left right ihLeft ihRight =>
    rw [calleesOfExpr, List.mem_append] at h
    exact h.elim ihLeft ihRight

theorem known_of_mem_body {body : List Stmt}
    (hbody : ∀ stmt ∈ body, ∀ {known : Known}, callee ∈ calleesOfStmt stmt known →
      ∃ name, known name = some callee)
    (h : callee ∈ calleesOfBody body known) : ∃ name, known name = some callee := by
  induction body generalizing known with
  | nil => exact absurd h (by simp [calleesOfBody])
  | cons stmt rest ih =>
    rw [List.forall_mem_cons] at hbody
    rw [calleesOfBody, List.mem_append] at h
    refine h.elim (fun hstmt => hbody.1 hstmt) fun hrest => ?_
    exact (ih hbody.2 hrest).imp fun name => Known.of_behind

theorem known_of_mem_optional {choice : Option Stmt}
    (hchoice : ∀ stmt ∈ choice, ∀ {known : Known}, callee ∈ calleesOfStmt stmt known →
      ∃ name, known name = some callee)
    (h : callee ∈ calleesOfOptional choice known) : ∃ name, known name = some callee := by
  cases choice with
  | none => exact absurd h (by simp [calleesOfOptional])
  | some stmt => exact hchoice stmt rfl h

/-- Only known functions are called: declarations hide functions and make none known. -/
theorem known_of_mem_stmt {stmt : Stmt} (h : callee ∈ calleesOfStmt stmt known) :
    ∃ name, known name = some callee := by
  have hrow : ∀ {known : Known} {row : List Expr}, callee ∈ calleesOfRow known row →
      ∃ name, known name = some callee :=
    known_of_mem_row fun expr _ => known_of_mem_expr
  induction stmt using Stmt.induction generalizing known with
  | block line body ih => exact known_of_mem_body (fun stmt hstmt => ih stmt hstmt) h
  | var line name init => exact hrow h
  | assign line name value | eval line value => exact known_of_mem_expr h
  | const | breakLoop | continueLoop | leave => exact absurd h (by simp [calleesOfStmt])
  | ifElse line cond yes no ihYes ihNo =>
    rw [calleesOfStmt, List.mem_append, List.mem_append] at h
    rcases h with h | h | h
    · exact known_of_mem_expr h
    · exact ihYes h
    · exact known_of_mem_optional (fun stmt hstmt => ihNo stmt hstmt) h
  | whileLoop line cond body ih =>
    rw [calleesOfStmt, List.mem_append] at h
    exact h.elim known_of_mem_expr fun h => ih h
  | forLoop line init cond step body ihInit ihStep ihBody =>
    rw [calleesOfStmt, List.mem_append, List.mem_append, List.mem_append] at h
    rcases h with h | h | h | h
    · exact known_of_mem_optional (fun stmt hstmt => ihInit stmt hstmt) h
    · exact (hrow h).imp fun name => Known.of_behind?
    · exact (ihBody h).imp fun name => Known.of_behind?
    · refine (known_of_mem_optional (fun stmt hstmt => ihStep stmt hstmt) h).imp fun name => ?_
      exact Known.of_behind?

end

theorem Scope.inlined?_eq_some_iff {scope : Scope} {name : String} {routine : Routine} :
    scope.inlined? name = some routine ↔
      scope.resolve? name = some (.routine routine) ∧ routine.isInlined = true := by
  unfold Scope.inlined?
  split
  · next found hfound =>
    rw [hfound]
    split <;> grind
  · next hother =>
    simp only [reduceCtorEq, false_iff, not_and]
    exact fun hname => absurd hname (hother routine)

/-- A callee is found by its own name. -/
theorem Inlines.inlined? {room : Scope} {caller callee : Routine} (h : Inlines room caller callee) :
    room.inlined? callee.name = some callee := by
  obtain ⟨name, hname⟩ := known_of_mem_stmt h
  rwa [(Scope.mem_routines_of_resolve? (Scope.inlined?_eq_some_iff.mp hname).1).2]

/-! ## Scopes and what is known in them -/

/-- Where a frame names no function, the inlined functions behind it are known. -/
theorem Scope.inlined?_cons {frame : Frame} {outer : Scope} {name : String} :
    Scope.inlined? (frame :: outer) name =
      match frame.find? name with
      | some (.routine routine) => if routine.isInlined then some routine else none
      | some _ => none
      | none => Scope.inlined? outer name := by
  rw [Scope.inlined?, Scope.resolve?]
  cases frame.find? name with
  | none => rfl
  | some meaning => cases meaning <;> rfl

/-- The inlined functions known in a scope in which names can be declared. -/
structure Knows (scope : Scope) (known : Known) : Prop where
  ne_nil : scope ≠ []
  inlined?_eq : scope.inlined? = known

namespace Knows

variable {scope : Scope} {known : Known}

theorem room (room : Scope) (kind : FrameKind) : Knows (room.push kind) room.inlined? :=
  ⟨List.cons_ne_nil _ _, rfl⟩

theorem push (h : Knows scope known) (kind : FrameKind) : Knows (scope.push kind) known :=
  ⟨List.cons_ne_nil _ _, h.inlined?_eq⟩

theorem declareLocal (h : Knows scope known) (name : String) (slot : UInt8) :
    Knows (scope.declareLocal name slot) (known.hide name) := by
  cases scope with
  | nil => exact absurd rfl h.ne_nil
  | cons frame outer =>
    refine ⟨List.cons_ne_nil _ _, funext fun other => ?_⟩
    have hknown := congrFun h.inlined?_eq other
    rw [Scope.inlined?_cons] at hknown
    rw [Scope.declareLocal, List.modifyHead_cons, Scope.inlined?_cons, Known.hide]
    by_cases hname : other = name
    · simp [Frame.find?, hname]
    · have hne : ¬ name = other := fun heq => hname heq.symm
      simpa [Frame.find?, List.find?_cons, hne, hname] using hknown

theorem declareConst (h : Knows scope known) (constant : Constant) :
    Knows (scope.declareConst constant) (known.hide constant.name) := by
  cases scope with
  | nil => exact absurd rfl h.ne_nil
  | cons frame outer =>
    refine ⟨List.cons_ne_nil _ _, funext fun other => ?_⟩
    have hknown := congrFun h.inlined?_eq other
    rw [Scope.inlined?_cons] at hknown
    rw [Scope.declareConst, List.modifyHead_cons, Scope.inlined?_cons, Known.hide]
    by_cases hname : other = constant.name
    · subst hname
      -- A variable of the frame hides the constant, but both hide a function.
      cases hlocal : frame.locals.find? fun entry => entry.1 == constant.name with
      | none => simp [Frame.find?, NameTable.find?_eq, hlocal]
      | some entry => simp [Frame.find?, hlocal]
    · have hne : ¬ constant.name = other := fun heq => hname heq.symm
      simpa [Frame.find?, NameTable.find?_eq, List.find?_cons, hne, hname] using hknown

end Knows

/-! ## Computations that ask for expansions -/

/-- The code of an inlined function from a free slot on. -/
abbrev Expansion := (routine : Routine) → (next : Nat) → Except CompileError (Fragment × Nat)

/-- The failure of a function that ends up in its own expansion. -/
def CompileError.IsRecursion : CompileError → Prop
  | .recursiveInline _ => True
  | _ => False

/-- A computation that asks for the code of the functions `callees`, and of no others. -/
structure Asks {α : Type} (callees : List Routine) (compute : Expansion → Except CompileError α)
    (post : α → Prop) : Prop where
  /-- It succeeds only if there is code for all of them. -/
  ok : ∀ {expand : Expansion} {result : α}, compute expand = .ok result →
    post result ∧ ∀ callee ∈ callees, ∃ next piece, expand callee next = .ok piece
  /-- Recursion is found only where one of them is expanded. -/
  recursion : ∀ {expand : Expansion} {name : String},
    compute expand = .error (.recursiveInline name) →
      ∃ callee ∈ callees, ∃ next, expand callee next = .error (.recursiveInline name)
  /-- Nothing depends on the code of other functions. -/
  congr : ∀ {first second : Expansion}, (∀ callee ∈ callees, first callee = second callee) →
    compute first = compute second

namespace Asks

variable {α β : Type} {callees more : List Routine} {compute : Expansion → Except CompileError α}
  {post : α → Prop}

theorem plain {result : Except CompileError α} (hpost : ∀ value, result = .ok value → post value)
    (havoids : Avoids CompileError.IsRecursion result) : Asks [] (fun _ => result) post where
  ok hok := ⟨hpost _ hok, by simp⟩
  recursion herror := absurd trivial (havoids _ herror)
  congr _ := rfl

theorem pure {value : α} (hpost : post value) : Asks [] (fun _ => .ok value) post :=
  plain (fun _ hvalue => Except.ok.inj hvalue ▸ hpost) .ok

theorem fail {fault : CompileError} (h : ¬ fault.IsRecursion) :
    Asks callees (fun _ => .error fault) post where
  ok hok := absurd hok (by simp)
  recursion herror := absurd (Except.error.inj herror ▸ trivial) h
  congr _ := rfl

theorem bind {next : Expansion → α → Except CompileError β} {last : β → Prop}
    (h : Asks callees compute post)
    (hnext : ∀ value, post value → Asks more (fun expand => next expand value) last) :
    Asks (callees ++ more) (fun expand => compute expand >>= next expand) last where
  ok hok := by
    obtain ⟨value, hvalue, hrest⟩ := bind_eq_ok_iff.mp hok
    obtain ⟨hpost, hcallees⟩ := h.ok hvalue
    obtain ⟨hlast, hmore⟩ := (hnext value hpost).ok hrest
    exact ⟨hlast, List.forall_mem_append.mpr ⟨hcallees, hmore⟩⟩
  recursion herror := by
    rcases bind_eq_error_iff.mp herror with hfirst | ⟨value, hvalue, hrest⟩
    · obtain ⟨callee, hcallee, hfail⟩ := h.recursion hfirst
      exact ⟨callee, List.mem_append_left more hcallee, hfail⟩
    · obtain ⟨callee, hcallee, hfail⟩ := (hnext value (h.ok hvalue).1).recursion hrest
      exact ⟨callee, List.mem_append_right callees hcallee, hfail⟩
  congr {first second} hagree := by
    rw [List.forall_mem_append] at hagree
    rw [h.congr hagree.1]
    cases hvalue : compute second with
    | error fault => rfl
    | ok value => exact (hnext value (h.ok hvalue).1).congr hagree.2

theorem ask (callee : Routine) (next : Nat) :
    Asks [callee] (fun expand => expand callee next) fun _ => True where
  ok hok := ⟨trivial, List.forall_mem_singleton.mpr ⟨next, _, hok⟩⟩
  recursion herror := ⟨callee, List.mem_singleton_self callee, next, herror⟩
  congr hagree := congrFun (hagree callee (List.mem_singleton_self callee)) next

/-- What follows asks for nothing. -/
theorem andThen {next : Expansion → α → Except CompileError β} {last : β → Prop}
    (h : Asks callees compute post)
    (hnext : ∀ value, post value → Asks [] (fun expand => next expand value) last) :
    Asks callees (fun expand => compute expand >>= next expand) last := by
  simpa only [List.append_nil] using h.bind hnext

/-- What goes before asks for nothing. -/
theorem following {result : Except CompileError α}
    {next : Expansion → α → Except CompileError β} {last : β → Prop}
    (havoids : Avoids CompileError.IsRecursion result)
    (hnext : ∀ value, result = .ok value → Asks callees (fun expand => next expand value) last) :
    Asks callees (fun expand => result >>= next expand) last :=
  (plain (fun _ => id) havoids).bind hnext

end Asks

/-! ## Expressions -/

section

variable {function : String} {inlined : Bool} {scope : Scope} {known : Known}

theorem not_isRecursion_of_isMisfit (fault : CompileError) (h : fault.IsMisfit) :
    ¬ fault.IsRecursion := by
  cases fault with
  | recursiveInline => exact absurd h id
  | _ => exact id

/-- Whether an operand leaves a value is known without expansions. -/
theorem Asks.afterValue {β : Type} {callees : List Routine} {last : β → Prop}
    {next : Expansion → Fragment × Nat → Except CompileError β} {site : Site} {expr : Expr}
    {compiled : ExprCode}
    (hnext : ∀ piece, Asks callees (fun expand => next expand piece) last) :
    Asks callees (fun expand => requireValue site expr compiled >>= next expand) last :=
  .following (requireValue_avoids not_isRecursion_of_isMisfit site expr compiled)
    fun piece _ => hnext piece

/-- Compiling the expression asks for the functions that it calls. -/
def ExprAsks (function : String) (inlined : Bool) (expr : Expr) : Prop :=
  ∀ {scope : Scope} {known : Known} (line next : Nat), Knows scope known →
    Asks (calleesOfExpr known expr)
      (fun expand => compileExpr ⟨function, inlined, expand⟩ scope line expr next) fun _ => True

theorem compileArgs_asks {args : List Expr} (h : ∀ arg ∈ args, ExprAsks function inlined arg)
    (hscope : Knows scope known) (line next : Nat) :
    Asks (calleesOfRow known args)
      (fun expand => compileArgs ⟨function, inlined, expand⟩ scope line args next)
      fun _ => True := by
  induction args generalizing next with
  | nil =>
    simp only [compileArgs, calleesOfRow]
    exact .pure trivial
  | cons arg rest ih =>
    rw [List.forall_mem_cons] at h
    simp only [compileArgs, calleesOfRow, Setting.site]
    refine (h.1 line next hscope).bind fun compiled _ => ?_
    refine .afterValue fun piece => ?_
    exact (ih h.2 piece.2).andThen fun _ _ => .pure trivial

theorem callRoutine_asks (hscope : Knows scope known) {name : String} {routine : Routine}
    (hname : scope.resolve? name = some (.routine routine)) (site : Site) (args : List Expr)
    (next : Nat) :
    Asks ((known name).toList ++ calleesOfRow known args)
      (fun expand => callRoutine ⟨function, inlined, expand⟩ site name routine args.length next)
      fun _ => True := by
  cases args with
  | cons arg rest =>
    simp only [callRoutine, List.length_cons]
    exact .fail id
  | nil =>
    have hknown : known name = if routine.isInlined then some routine else none := by
      rw [← hscope.inlined?_eq, Scope.inlined?, hname]
    simp only [callRoutine, calleesOfRow, List.append_nil, List.length_nil, hknown]
    cases routine.isInlined with
    | true => exact (Asks.ask routine next).andThen fun _ _ => .pure trivial
    | false =>
      cases routine.number with
      | none => exact .fail id
      | some number => exact .pure trivial

theorem exprAsks (function : String) (inlined : Bool) (expr : Expr) :
    ExprAsks function inlined expr := by
  induction expr using Expr.induction with
  | int value =>
    intro scope known line next hscope
    simp only [compileExpr, calleesOfExpr, Setting.site]
    exact .following (pushNumber_avoids not_isRecursion_of_isMisfit _ value)
      fun _ _ => .pure trivial
  | str text =>
    intro scope known line next hscope
    simp only [compileExpr, calleesOfExpr]
    exact .pure trivial
  | ident name =>
    intro scope known line next hscope
    simp only [compileExpr, calleesOfExpr, Setting.site]
    exact .following (pushName_avoids not_isRecursion_of_isMisfit _ scope name)
      fun _ _ => .pure trivial
  | call name args ih =>
    intro scope known line next hscope
    simp only [compileExpr, calleesOfExpr, Setting.site]
    cases hname : scope.resolve? name with
    | none => exact .fail id
    | some meaning =>
      cases meaning with
      | constant | slot | global => exact .fail id
      | routine routine => exact callRoutine_asks hscope hname _ args next
      | builtin builtin =>
        have hknown : known name = none := by
          rw [← hscope.inlined?_eq, Scope.inlined?, hname]
        dsimp only
        split
        · exact .fail id
        · rw [hknown]
          exact (compileArgs_asks ih hscope line next).andThen fun _ _ => .pure trivial
  | unary op operand ih =>
    intro scope known line next hscope
    simp only [compileExpr, calleesOfExpr, Setting.site]
    refine (ih line next hscope).andThen fun compiled _ => ?_
    exact .afterValue fun _ => .pure trivial
  | binary op left right ihLeft ihRight =>
    intro scope known line next hscope
    simp only [compileExpr, calleesOfExpr, Setting.site]
    refine (ihLeft line next hscope).bind fun compiled _ => ?_
    refine .afterValue fun piece => ?_
    refine (ihRight line piece.2 hscope).andThen fun compiled _ => ?_
    exact .afterValue fun _ => .pure trivial

theorem compileValue_asks (hscope : Knows scope known) (line : Nat) (expr : Expr) (next : Nat) :
    Asks (calleesOfExpr known expr)
      (fun expand => compileValue ⟨function, inlined, expand⟩ scope line expr next)
      fun _ => True := by
  simp only [compileValue, Setting.site]
  refine (exprAsks function inlined expr line next hscope).andThen fun compiled _ => ?_
  exact .afterValue fun _ => .pure trivial

theorem compileInit_asks (hscope : Knows scope known) (line : Nat) (init : Option Expr)
    (next : Nat) :
    Asks (calleesOfRow known init.toList)
      (fun expand => compileInit ⟨function, inlined, expand⟩ scope line init next)
      fun _ => True := by
  cases init with
  | none => exact .pure trivial
  | some init =>
    simp only [Option.toList_some, calleesOfRow, List.append_nil]
    exact compileValue_asks hscope line init next

theorem compileCond_asks (hscope : Knows scope known) (line : Nat) (cond : Option Expr)
    (next : Nat) :
    Asks (calleesOfRow known cond.toList)
      (fun expand => compileCond ⟨function, inlined, expand⟩ scope line cond next)
      fun _ => True := by
  cases cond with
  | none => exact .pure trivial
  | some cond =>
    simp only [Option.toList_some, calleesOfRow, List.append_nil]
    exact (compileValue_asks hscope line cond next).andThen fun _ _ => .pure trivial

/-! ## Statements -/

/-- Compiling the statement asks for the functions that it calls, and leaves known what its
declarations do not hide. -/
def StmtAsks (function : String) (inlined : Bool) (stmt : Stmt) : Prop :=
  ∀ {scope : Scope} {known : Known} (next : Nat), Knows scope known →
    Asks (calleesOfStmt stmt known)
      (fun expand => compileStmt ⟨function, inlined, expand⟩ stmt scope next)
      fun compiled => Knows compiled.scope (known.behind stmt)

theorem compileStmts_asks {body : List Stmt} (h : ∀ stmt ∈ body, StmtAsks function inlined stmt)
    (hscope : Knows scope known) (next : Nat) (taken : List Fragment) :
    Asks (calleesOfBody body known)
      (fun expand => compileStmts ⟨function, inlined, expand⟩ body scope next taken)
      fun _ => True := by
  induction body generalizing scope known next taken with
  | nil =>
    simp only [compileStmts, calleesOfBody]
    exact .pure trivial
  | cons stmt rest ih =>
    rw [List.forall_mem_cons] at h
    simp only [compileStmts, calleesOfBody]
    refine (h.1 next hscope).bind fun compiled hcompiled => ?_
    exact ih h.2 hcompiled compiled.next _

theorem compileOptional_asks {choice : Option Stmt}
    (h : ∀ stmt ∈ choice, StmtAsks function inlined stmt) (hscope : Knows scope known)
    (next : Nat) :
    Asks (calleesOfOptional choice known)
      (fun expand => compileOptional ⟨function, inlined, expand⟩ choice scope next)
      fun compiled => Knows compiled.2.scope (known.behind? choice) := by
  cases choice with
  | none =>
    simp only [compileOptional, calleesOfOptional]
    exact .pure hscope
  | some stmt =>
    simp only [compileOptional, calleesOfOptional]
    exact (h stmt rfl next hscope).andThen fun compiled hcompiled => .pure hcompiled

theorem stmtAsks (function : String) (inlined : Bool) (stmt : Stmt) :
    StmtAsks function inlined stmt := by
  induction stmt using Stmt.induction with
  | block line body ih =>
    intro scope known next hscope
    simp only [compileStmt, calleesOfStmt]
    exact (compileStmts_asks ih (hscope.push .block) next []).andThen fun _ _ => .pure hscope
  | var line name init =>
    intro scope known next hscope
    simp only [compileStmt, calleesOfStmt]
    refine .following (newSlot_avoids id next) fun slot _ => ?_
    refine (compileInit_asks hscope line init (next + 1)).andThen fun _ _ => ?_
    exact .pure (hscope.declareLocal name slot)
  | const line name value =>
    intro scope known next hscope
    simp only [compileStmt, calleesOfStmt]
    exact .pure (hscope.declareConst ⟨name, value⟩)
  | assign line name value =>
    intro scope known next hscope
    simp only [compileStmt, calleesOfStmt, Setting.site]
    refine .following (storeName_avoids not_isRecursion_of_isMisfit _ scope name) fun store _ => ?_
    exact (compileValue_asks hscope line value next).andThen fun _ _ => .pure hscope
  | eval line expr =>
    intro scope known next hscope
    simp only [compileStmt, calleesOfStmt]
    exact (exprAsks function inlined expr line next hscope).andThen fun _ _ => .pure hscope
  | ifElse line cond yes no ihYes ihNo =>
    intro scope known next hscope
    simp only [compileStmt, calleesOfStmt]
    refine (compileValue_asks hscope line cond next).bind fun test _ => ?_
    refine (ihYes test.2 (hscope.push .block)).bind fun first _ => ?_
    exact (compileOptional_asks ihNo (hscope.push .block) first.next).andThen
      fun _ _ => .pure hscope
  | whileLoop line cond body ih =>
    intro scope known next hscope
    simp only [compileStmt, calleesOfStmt]
    refine (compileValue_asks hscope line cond next).bind fun test _ => ?_
    exact (ih test.2 (hscope.push .loop)).andThen fun _ _ => .pure hscope
  | forLoop line init cond step body ihInit ihStep ihBody =>
    intro scope known next hscope
    simp only [compileStmt, calleesOfStmt]
    refine (compileOptional_asks ihInit (hscope.push .block) next).bind fun head hhead => ?_
    refine (compileCond_asks hhead _ cond head.2.next).bind fun test _ => ?_
    refine (ihBody test.2 (hhead.push .loop)).bind fun inside _ => ?_
    exact (compileOptional_asks ihStep hhead inside.next).andThen fun _ _ => .pure hscope
  | breakLoop line | continueLoop line =>
    intro scope known next hscope
    simp only [compileStmt, calleesOfStmt, Setting.site]
    split
    · exact .pure hscope
    · exact .fail id
  | leave line =>
    intro scope known next hscope
    simp only [compileStmt, calleesOfStmt]
    let left : StmtCode := ⟨[if inlined then .jump .bodyEnd else .stop], scope, next⟩
    have hleft : Asks [] (fun _ => .ok left) fun compiled => Knows compiled.scope known :=
      .pure hscope
    exact hleft

end

/-- A body is compiled from the code of the functions that it calls. -/
theorem body_asks (room : Scope) (function : String) (inlined : Bool) (routine : Routine)
    (next : Nat) :
    Asks (calleesOfStmt routine.body room.inlined?)
      (fun expand =>
        compileStmt ⟨function, inlined, expand⟩ routine.body (room.push .function) next)
      fun _ => True := by
  have h := stmtAsks function inlined routine.body next (Knows.room room .function)
  exact ⟨fun hok => ⟨trivial, (h.ok hok).2⟩, h.recursion, h.congr⟩

end RoomForge.Code
