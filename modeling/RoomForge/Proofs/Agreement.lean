import RoomForge.Proofs.Patching

set_option autoImplicit false

/-! # Writing and compiling agree

Code that is written in one pass is the code that is put together from fragments, with the same
faults: `writeRoutine_eq` for functions, by induction on their trees. With it,
`compiled_jumps_find_their_places` says of jumps that are patched what `Proofs.Jumps` knows of
fragments (specification, section 4.3): targets are filled in at jumps only, none is left open, and
all of them are instructions of the function.
-/

namespace RoomForge.Code

open RoomForge.Script

/-! ## Expressions -/

theorem lift_bind {α β γ δ : Type} {first : Except CompileError α}
    {next : α → Except CompileError β} {f : β → γ} {g : α → δ} {write : δ → Except Mishap γ}
    (h : ∀ value, first = .ok value → write (g value) = lift f (next value)) :
    lift g first >>= write = lift f (first >>= next) := by
  cases first with
  | error cause => rfl
  | ok value => exact h value rfl

/-- Writing does what compiling does while the bodies `calls` are being written. -/
structure Writing.Matches (writing : Writing) (setting : Setting) (calls : List String) : Prop where
  function : writing.function = setting.function
  inlined : setting.inlined = !calls.isEmpty
  expand : ∀ (routine : Routine) (draft : Draft), draft.names = calls →
    writing.expand routine draft =
      lift (fun result => draft.extend result.1 result.2) (setting.expand routine draft.next)

section

variable {writing : Writing} {setting : Setting} {calls : List String} {scope : Scope}

theorem Writing.Matches.site (h : writing.Matches setting calls) (draft : Draft) :
    writing.site draft = setting.site draft.line := by
  unfold Writing.site Setting.site
  rw [h.function]

theorem pushName_target? {site : Site} {name : String} {instr : Instr Target}
    (h : pushName site scope name = .ok instr) : instr.target? = none := by
  rcases pushName_ok h with ⟨value, _, hnumber⟩ | ⟨slot, _, rfl⟩ | ⟨id, _, rfl⟩
  · obtain ⟨rfl, _⟩ := pushNumber_ok hnumber
    rfl
  · rfl
  · rfl

theorem storeName_target? {site : Site} {name : String} {instr : Instr Target}
    (h : storeName site scope name = .ok instr) : instr.target? = none := by
  rcases storeName_ok h with ⟨slot, _, rfl⟩ | ⟨id, _, rfl⟩
  · rfl
  · rfl

/-- Writing an expression is compiling it and writing its code. -/
def ExprWrites (writing : Writing) (setting : Setting) (calls : List String) (expr : Expr) : Prop :=
  ∀ (scope : Scope) (draft : Draft), draft.names = calls →
    writeExpr writing scope expr draft =
      lift (fun compiled => (compiled.value, draft.extend compiled.code compiled.next))
        (compileExpr setting scope draft.line expr draft.next)

/-- Writing an operand is compiling it and writing its code. -/
theorem ExprWrites.operand (hmatches : writing.Matches setting calls) {expr : Expr}
    (h : ExprWrites writing setting calls expr) {draft : Draft}
    (hcalls : draft.names = calls) :
    (writeExpr writing scope expr draft >>= requireLeft writing expr) =
      lift (fun result => draft.extend result.1.reverse result.2)
        (compileExpr setting scope draft.line expr draft.next >>=
          requireValue (setting.site draft.line) expr) := by
  rw [h scope draft hcalls]
  refine lift_bind fun compiled _ => ?_
  unfold requireLeft requireValue
  rw [hmatches.site]
  cases compiled.value with
  | true => rfl
  | false => rfl

theorem writeArgs_eq (hmatches : writing.Matches setting calls) {args : List Expr}
    (h : ∀ arg ∈ args, ExprWrites writing setting calls arg) (draft : Draft)
    (hcalls : draft.names = calls) :
    writeArgs writing scope args draft =
      lift (fun result => draft.extend result.1.reverse result.2)
        (compileArgs setting scope draft.line args draft.next) := by
  induction args generalizing draft with
  | nil =>
    rw [writeArgs, compileArgs]
    exact congrArg Except.ok draft.extend_nil.symm
  | cons arg rest ih =>
    rw [writeArgs, compileArgs, ← bind_assoc,
      (h arg List.mem_cons_self).operand hmatches hcalls]
    refine lift_bind fun first _ => ?_
    rw [ih (fun other hother => h other (List.mem_cons_of_mem arg hother)) _
      (by simpa using hcalls), ← bind_pure (lift _ _)]
    refine lift_bind fun last _ => ?_
    have hrow : (draft.extend first.1.reverse first.2).extend last.1.reverse last.2 =
        draft.extend (last.1 ++ first.1).reverse last.2 := by
      rw [Draft.extend_extend, List.reverse_append]
    exact congrArg Except.ok hrow

theorem writeCall_eq (hmatches : writing.Matches setting calls) (name : String) (routine : Routine)
    (argc : Nat) (draft : Draft) (hcalls : draft.names = calls) :
    writeCall writing name routine argc draft =
      lift (fun compiled => (compiled.value, draft.extend compiled.code compiled.next))
        (callRoutine setting (setting.site draft.line) name routine argc draft.next) := by
  unfold writeCall callRoutine
  rw [hmatches.site]
  split
  · rfl
  · split
    · rw [hmatches.expand routine draft hcalls]
      refine lift_bind fun result _ => ?_
      have hcode : (ExprCode.mk result.1.reverse result.2 false).code = result.1 :=
        List.reverse_reverse _
      show Except.ok _ = Except.ok (false, draft.extend (ExprCode.mk _ _ _).code result.2)
      rw [hcode]
    · cases routine.number with
      | none => rfl
      | some number =>
        have hput : draft.put (.startScript number) =
            draft.extend [.startScript number] draft.next := Draft.put_eq_extend rfl draft
        exact congrArg (fun written => Except.ok (false, written)) hput

theorem exprWrites (hmatches : writing.Matches setting calls) (expr : Expr) :
    ExprWrites writing setting calls expr := by
  induction expr using Expr.induction with
  | int value =>
    intro scope draft _
    rw [writeExpr, compileExpr, hmatches.site]
    refine lift_bind fun push hpush => ?_
    obtain ⟨rfl, _⟩ := pushNumber_ok hpush
    exact congrArg (fun written => Except.ok (true, written)) (Draft.put_eq_extend rfl draft)
  | str text =>
    intro scope draft _
    rw [writeExpr_str, compileExpr_str]
    have hput : draft.put (.pushString text) = draft.extend [.pushString text] draft.next :=
      Draft.put_eq_extend rfl draft
    exact congrArg (fun written => Except.ok (true, written)) hput
  | ident name =>
    intro scope draft _
    rw [writeExpr, compileExpr, hmatches.site]
    refine lift_bind fun push hpush => ?_
    have htarget : push.target? = none := pushName_target? hpush
    exact congrArg (fun written => Except.ok (true, written)) (Draft.put_eq_extend htarget draft)
  | call name args ih =>
    intro scope draft hcalls
    rw [writeExpr, compileExpr, hmatches.site]
    cases scope.resolve? name with
    | none => rfl
    | some meaning =>
      cases meaning with
      | constant | slot | global => rfl
      | routine routine => exact writeCall_eq hmatches name routine args.length draft hcalls
      | builtin builtin =>
        simp only
        split
        · rfl
        · rw [writeArgs_eq hmatches ih draft hcalls]
          refine lift_bind fun result _ => ?_
          have hput := draft.put_extend result.1.reverse result.2
            (rfl : (Instr.callBuiltin builtin.id (UInt8.ofNat args.length)).target? = none)
          rw [← List.reverse_cons] at hput
          exact congrArg (fun written => Except.ok (builtin.returns, written)) hput
  | unary op expr ih =>
    intro scope draft hcalls
    rw [writeExpr, compileExpr, ← bind_assoc, ih.operand hmatches hcalls]
    refine lift_bind fun result _ => ?_
    have hput := draft.put_extend result.1.reverse result.2 (rfl : (Instr.unary op).target? = none)
    rw [← List.reverse_cons] at hput
    exact congrArg (fun written => Except.ok (true, written)) hput
  | binary op left right ihLeft ihRight =>
    intro scope draft hcalls
    rw [writeExpr, compileExpr, ← bind_assoc (compileExpr setting scope draft.line left draft.next),
      ihLeft.operand hmatches hcalls]
    refine lift_bind ?_
    rintro ⟨leftBack, middle⟩ _
    dsimp only
    rw [← bind_assoc, ihRight.operand hmatches (by simpa using hcalls)]
    refine lift_bind ?_
    rintro ⟨rightBack, next⟩ _
    have hput := draft.put_extend (leftBack.reverse ++ rightBack.reverse) next
      (rfl : (Instr.binary op).target? = none)
    rw [← draft.extend_extend _ _ middle, ← List.reverse_append, ← List.reverse_cons] at hput
    exact congrArg (fun written => Except.ok (true, written)) hput

theorem writeValue_eq (hmatches : writing.Matches setting calls) (expr : Expr) (draft : Draft)
    (hcalls : draft.names = calls) :
    writeValue writing scope expr draft =
      lift (fun result => draft.extend result.1 result.2)
        (compileValue setting scope draft.line expr draft.next) := by
  unfold writeValue compileValue
  rw [(exprWrites hmatches expr).operand hmatches hcalls, ← bind_assoc, ← bind_pure (lift _ _)]
  exact lift_bind fun _ _ => rfl

theorem writeInit_eq (hmatches : writing.Matches setting calls) (init : Option Expr) (draft : Draft)
    (hcalls : draft.names = calls) :
    writeInit writing scope init draft =
      lift (fun result => draft.extend result.1 result.2)
        (compileInit setting scope draft.line init draft.next) := by
  cases init with
  | some init => exact writeValue_eq hmatches init draft hcalls
  | none =>
    have hput : draft.put (.pushWord 0) = draft.extend [.pushWord 0] draft.next :=
      Draft.put_eq_extend rfl draft
    exact congrArg Except.ok hput

theorem writeTest_eq (hmatches : writing.Matches setting calls) (cond : Option Expr) (draft : Draft)
    (hcalls : draft.names = calls) :
    writeTest writing scope cond draft =
      lift (fun result => draft.withTest result.1 result.2)
        (compileCond setting scope draft.line cond draft.next) := by
  cases cond with
  | none => exact congrArg (fun tested => Except.ok (none, tested)) draft.extend_nil.symm
  | some cond =>
    unfold writeTest compileCond
    dsimp only
    rw [writeValue_eq hmatches cond draft hcalls]
    exact lift_bind fun _ _ => rfl

/-! ## Statements -/

/-- Writing a statement is compiling it and writing its code. -/
def StmtWrites (writing : Writing) (setting : Setting) (calls : List String) (stmt : Stmt) : Prop :=
  ∀ (scope : Scope) (draft : Draft), draft.names = calls →
    writeStmt writing stmt scope draft =
      lift (fun compiled => (compiled.scope,
          (draft.extend compiled.code compiled.next).goTo (lastLine stmt)))
        (compileStmt setting stmt scope draft.next)

theorem writeStmts_eq {body : List Stmt} (h : ∀ stmt ∈ body, StmtWrites writing setting calls stmt)
    (scope : Scope) (draft : Draft) (hcalls : draft.names = calls) :
    writeStmts writing body scope draft =
      lift (fun compiled => (compiled.scope,
          (draft.extend compiled.code compiled.next).goTo (lastLineOf draft.line body)))
        (compileStmts setting body scope draft.next []) := by
  induction body generalizing scope draft with
  | nil =>
    rw [writeStmts, compileStmts]
    exact congrArg (fun written => Except.ok (scope, written)) draft.extend_nil.symm
  | cons stmt rest ih =>
    rw [writeStmts, compileStmts, h stmt List.mem_cons_self scope draft hcalls]
    refine lift_bind fun first _ => ?_
    dsimp only
    rw [ih (fun other hother => h other (List.mem_cons_of_mem stmt hother)) _ _
      (by simpa using hcalls), compileStmts_taken rest first.scope first.next [first.code]]
    show lift _ (compileStmts setting rest first.scope first.next []) = _
    cases compileStmts setting rest first.scope first.next [] with
    | error cause => rfl
    | ok last =>
      have hrow : (draft.extend first.code first.next).extend last.code last.next =
          draft.extend ([first.code].reverse.flatten ++ last.code) last.next := by
        simp [Draft.extend_extend]
      simp only [lift, Except.map, Draft.goTo_extend, hrow, lastLineOf]
      rfl

theorem writeOptional_eq {choice : Option Stmt}
    (h : ∀ stmt ∈ choice, StmtWrites writing setting calls stmt) (scope : Scope) (draft : Draft)
    (hcalls : draft.names = calls) :
    writeOptional writing choice scope draft =
      lift (fun result => (result.2.scope, (draft.extend (result.1.getD []) result.2.next).goTo
          ((lastLine? choice).getD draft.line)))
        (compileOptional setting choice scope draft.next) := by
  cases choice with
  | none =>
    rw [writeOptional, compileOptional]
    exact congrArg (fun written => Except.ok (scope, written)) draft.extend_nil.symm
  | some stmt =>
    rw [writeOptional, compileOptional, h stmt rfl scope draft hcalls, ← bind_pure (lift _ _)]
    exact lift_bind fun _ _ => rfl

theorem StmtWrites.ifElse_none (hmatches : writing.Matches setting calls) {yes : Stmt}
    (hyes : StmtWrites writing setting calls yes) (line : Nat) (cond : Expr) :
    StmtWrites writing setting calls (.ifElse line cond yes none) := by
  intro scope draft hcalls
  rw [writeStmt, compileStmt, lastLine, lastLine?,
    writeValue_eq hmatches cond _ (by simpa using hcalls)]
  refine lift_bind fun tested _ => ?_
  dsimp only
  rw [hyes _ _ (by simpa using hcalls)]
  refine lift_bind fun first _ => ?_
  have hpatched := Draft.patchAll_goTo ((draft.goTo line).patchAll_choice_none tested.1 first.code
    tested.2 first.next rfl rfl) (lastLine yes)
  rw [compileOptional]
  exact bind_of_eq_ok hpatched

theorem StmtWrites.ifElse_some (hmatches : writing.Matches setting calls) {yes no : Stmt}
    (hyes : StmtWrites writing setting calls yes) (hno : StmtWrites writing setting calls no)
    (line : Nat) (cond : Expr) :
    StmtWrites writing setting calls (.ifElse line cond yes (some no)) := by
  intro scope draft hcalls
  rw [writeStmt, compileStmt, lastLine, lastLine?,
    writeValue_eq hmatches cond _ (by simpa using hcalls)]
  refine lift_bind fun tested _ => ?_
  dsimp only
  rw [hyes _ _ (by simpa using hcalls)]
  refine lift_bind fun first _ => ?_
  have hyesPatched := Draft.patchAll_goTo ((draft.goTo line).patchAll_choice_yes tested.1 first.code
    tested.2 first.next rfl rfl) (lastLine yes)
  refine (bind_of_eq_ok hyesPatched).trans ?_
  rw [hno _ _ (by simpa using hcalls), compileOptional, bind_assoc]
  refine lift_bind fun last _ => ?_
  exact bind_of_eq_ok (Draft.patchAll_goTo ((draft.goTo line).patchAll_choice_some tested.1
    first.code last.code tested.2 first.next last.next rfl rfl rfl) (lastLine no))

theorem StmtWrites.whileLoop (hmatches : writing.Matches setting calls) {body : Stmt}
    (hbody : StmtWrites writing setting calls body) (line : Nat) (cond : Expr) :
    StmtWrites writing setting calls (.whileLoop line cond body) := by
  intro scope draft hcalls
  rw [writeStmt, compileStmt, lastLine]
  dsimp only [writeTest]
  rw [writeValue_eq hmatches cond _ (by simpa using hcalls), bind_assoc]
  refine lift_bind fun tested _ => ?_
  dsimp only [pure, bind, Except.bind]
  rw [hbody _ _ (by simpa using hcalls)]
  refine lift_bind fun inside _ => ?_
  exact bind_of_eq_ok (Draft.closeLoop_goTo ((draft.goTo line).closeLoop_testLoop tested.1
    inside.code tested.2 inside.next rfl) (lastLine body))

theorem StmtWrites.forLoop (hmatches : writing.Matches setting calls) {init step : Option Stmt}
    {body : Stmt} (hinit : ∀ stmt ∈ init, StmtWrites writing setting calls stmt)
    (hstep : ∀ stmt ∈ step, StmtWrites writing setting calls stmt)
    (hbody : StmtWrites writing setting calls body) (line : Nat) (cond : Option Expr) :
    StmtWrites writing setting calls (.forLoop line init cond step body) := by
  intro scope draft hcalls
  rw [writeStmt, compileStmt, lastLine, writeOptional_eq hinit _ _ (by simpa using hcalls)]
  refine lift_bind fun head _ => ?_
  dsimp only
  rw [writeTest_eq hmatches cond _ (by simpa using hcalls)]
  refine lift_bind fun tested _ => ?_
  rw [hbody _ _ (by simpa using hcalls), Draft.next_withTest]
  refine lift_bind fun inside _ => ?_
  dsimp only
  rw [writeOptional_eq hstep _ _ (by simpa using hcalls)]
  refine lift_bind fun last _ => ?_
  -- The loop proper starts behind what comes first, whose line it is written on.
  obtain ⟨front, hfront⟩ : ∃ front, front = ((draft.goTo line).extend (head.1.getD [])
      head.2.next).goTo ((lastLine? init).getD line) := ⟨_, rfl⟩
  have hclosed := Draft.closeLoop_goTo (front.closeLoop_stepLoop tested.1 inside.code
    (last.1.getD []) tested.2 inside.next last.2.next rfl) ((lastLine? step).getD (lastLine body))
  rw [hfront] at hclosed
  refine (bind_of_eq_ok hclosed).trans ?_
  show Except.ok (scope, ((draft.extend _ head.2.next).extend _ _).goTo _) = Except.ok (scope, _)
  rw [Draft.extend_extend]

theorem stmtWrites (hmatches : writing.Matches setting calls) (stmt : Stmt) :
    StmtWrites writing setting calls stmt := by
  induction stmt using Stmt.induction with
  | block line body ih =>
    intro scope draft hcalls
    rw [writeStmt, compileStmt, lastLine, writeStmts_eq ih _ _ (by simpa using hcalls)]
    exact lift_bind fun _ _ => rfl
  | var line name init =>
    intro scope draft hcalls
    rw [writeStmt, compileStmt, lastLine, hmatches.function]
    refine lift_bind fun slot _ => ?_
    rw [writeInit_eq hmatches init (draft.goTo line).takeSlot hcalls]
    refine lift_bind fun result _ => ?_
    have hput := draft.put_extend result.1 result.2 (rfl : (Instr.storeLocal slot).target? = none)
    exact congrArg (fun written : Draft => Except.ok (scope.declareLocal name slot,
      written.goTo line)) hput
  | const line name value =>
    intro scope draft hcalls
    rw [writeStmt_const, compileStmt_const, lastLine_const]
    exact congrArg (fun written : Draft => Except.ok (scope.declareConst ⟨name, value⟩,
      written.goTo line)) draft.extend_nil.symm
  | assign line name value =>
    intro scope draft hcalls
    rw [writeStmt, compileStmt, lastLine]
    dsimp only
    rw [hmatches.site]
    refine lift_bind fun store hstore => ?_
    rw [writeValue_eq hmatches value _ (by simpa using hcalls)]
    refine lift_bind fun result _ => ?_
    have hput := draft.put_extend result.1 result.2 (storeName_target? hstore)
    exact congrArg (fun written : Draft => Except.ok (scope, written.goTo line)) hput
  | eval line expr =>
    intro scope draft hcalls
    rw [writeStmt, compileStmt, lastLine, exprWrites hmatches expr _ _ (by simpa using hcalls)]
    refine lift_bind fun compiled _ => ?_
    dsimp only
    cases compiled.value with
    | false => rfl
    | true =>
      have hput := draft.put_extend compiled.code compiled.next (rfl : (Instr.pop).target? = none)
      exact congrArg (fun written : Draft => Except.ok (scope, written.goTo line)) hput
  | ifElse line cond yes no ihYes ihNo =>
    cases no with
    | none => exact ihYes.ifElse_none hmatches line cond
    | some no => exact ihYes.ifElse_some hmatches (ihNo no rfl) line cond
  | whileLoop line cond body ih => exact ih.whileLoop hmatches line cond
  | forLoop line init cond step body ihInit ihStep ihBody =>
    exact .forLoop hmatches ihInit ihStep ihBody line cond
  | breakLoop line =>
    intro scope draft hcalls
    rw [writeStmt, compileStmt, lastLine, hmatches.site]
    split
    · exact congrArg (fun written : Draft => Except.ok (scope, written.goTo line))
        draft.emitBreak_eq_extend
    · rfl
  | continueLoop line =>
    intro scope draft hcalls
    rw [writeStmt, compileStmt, lastLine, hmatches.site]
    split
    · exact congrArg (fun written : Draft => Except.ok (scope, written.goTo line))
        draft.emitContinue_eq_extend
    · rfl
  | leave line =>
    intro scope draft hcalls
    -- Writing sees from the draft whether the body is inlined, compiling from its setting.
    have hinlined : setting.inlined = !draft.bodies.isEmpty := by
      rw [hmatches.inlined, ← hcalls, Draft.names, List.isEmpty_map]
    have hreturn : (draft.goTo line).emitReturn =
        (draft.extend [if draft.bodies.isEmpty then .stop else .jump .bodyEnd] draft.next).goTo
          line :=
      (draft.goTo line).emitReturn_eq_extend
    rw [writeStmt, compileStmt, lastLine, hinlined, hreturn]
    cases draft.bodies.isEmpty with
    | true => rfl
    | false => rfl

/-! ## Functions -/

theorem writeBody_matches (function : String) (room : Scope) (depth : Nat) (calls : List String) :
    Writing.Matches ⟨function, writeBody function room depth⟩
      ⟨function, !calls.isEmpty, expandCall function room depth calls⟩ calls where
  function := rfl
  inlined := rfl
  expand := by
    induction depth generalizing calls with
    | zero => exact fun routine draft _ => rfl
    | succ depth ih =>
      intro routine draft hcalls
      simp only [writeBody, expandCall]
      rw [hcalls]
      split
      · rfl
      -- Inside of the body one more name is taken, and the depth has gone down by one.
      · have hmatches : Writing.Matches ⟨function, writeBody function room depth⟩
            ⟨function, true, expandCall function room depth (routine.name :: calls)⟩
            (routine.name :: calls) :=
          ⟨rfl, rfl, ih (routine.name :: calls)⟩
        have hnames : (draft.openBody routine.name).names = routine.name :: calls := by
          rw [← hcalls]
          rfl
        rw [stmtWrites hmatches routine.body _ _ hnames]
        refine lift_bind fun body _ => ?_
        exact draft.closeBody_extend routine.name body.code body.next (lastLine routine.body)

end

/-- Writing a function is compiling it, and no loop and no body is left open. -/
theorem writeRoutine_eq (room : Scope) (routine : Routine) :
    writeRoutine room routine =
      lift (fun listing => ⟨listing.instrs, listing.locals, lastLine routine.body, [], []⟩)
        (compileListing room routine) := by
  have hmatches : Writing.Matches
      ⟨routine.name, writeBody routine.name room (room.routines.length + 1)⟩
      (Setting.ofRoutine room routine) [] :=
    writeBody_matches routine.name room (room.routines.length + 1) []
  unfold writeRoutine compileListing
  dsimp only
  rw [stmtWrites hmatches routine.body _ {} rfl]
  refine lift_bind fun body hbody => ?_
  have hwhole : Structured false false (body.code ++ [.stop]) :=
    .append (compileBody_structured hbody) .stop
  obtain ⟨code, hcode⟩ := exists_link? hwhole.closedAt
  have hlaid : lay holes 0 body.code ++ [.stop] = code := by
    rw [← lay_eq_of_link? hcode, lay_append]
    rfl
  rw [hcode]
  show Except.ok (Draft.mk ([] ++ lay holes 0 body.code ++ [.stop]) body.next _ [] []) = _
  rw [List.nil_append, hlaid]
  rfl

/-- Compiling a function never asks for a target where there is no jump or for a place where there
is no instruction. If it succeeds, no loop and no inlined body is left open, and all jumps lead to
instructions of the code, which can only be left through the end of the script. -/
theorem compiled_jumps_find_their_places (room : Scope) (routine : Routine) :
    writeRoutine room routine ≠ .error .misplaced ∧
      Avoids CompileError.IsDangling (compileBytes room routine) ∧
      writeRoutine room routine =
        lift (fun listing => ⟨listing.instrs, listing.locals, lastLine routine.body, [], []⟩)
          (compileListing room routine) ∧
      ∀ listing, compileListing room routine = .ok listing → SelfContained listing.instrs := by
  refine ⟨?_, compileBytes_avoids room routine, writeRoutine_eq room routine, ?_⟩
  · rw [writeRoutine_eq]
    cases compileListing room routine with
    | ok listing => exact fun h => nomatch h
    | error cause => exact fun h => nomatch h
  · exact fun listing hlisting => compileListing_selfContained hlisting

/-- An inlined function that may return early. -/
def peek : Routine where
  name := "peek"
  kind := .inlined
  body := .block 1 [.ifElse 2 (.ident "timer") (.leave 2) none,
    .eval 3 (.call "print" [.str "empty"])]
  line := 1

/-- A loop whose turns end in every way there is. -/
def searchDrawers : Routine where
  name := "searchDrawers"
  kind := .normal
  body := .block 5 [.forLoop 6 (some (.var 6 "drawer" none)) none
    (some (.assign 6 "drawer" (.binary .add (.ident "drawer") (.int 1))))
    (.block 6 [.eval 7 (.call "peek" []),
      .ifElse 8 (.binary .lt (.ident "drawer") (.int 4)) (.continueLoop 8) (some (.breakLoop 9)),
      .leave 10])]
  line := 5

theorem searchDrawers_jumps_find_their_places :
    ∃ draft, writeRoutine (.ofRoom [] [peek]) searchDrawers = .ok draft ∧ draft.loops = [] ∧
      draft.bodies = [] ∧ SelfContained draft.instrs := by
  obtain ⟨_, _, hwritten, hcontained⟩ :=
    compiled_jumps_find_their_places (.ofRoom [] [peek]) searchDrawers
  obtain ⟨listing, hlisting⟩ : ∃ listing,
      compileListing (.ofRoom [] [peek]) searchDrawers = .ok listing :=
    exists_ok_of_isOk (by decide +kernel)
  rw [hlisting] at hwritten
  exact ⟨_, hwritten, rfl, rfl, hcontained listing hlisting⟩

end RoomForge.Code
