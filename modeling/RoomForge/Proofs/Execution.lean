import RoomForge.Proofs.Evaluation

set_option autoImplicit false

/-! # Code of statements

The machine on the code of a statement follows the run of the statement: `stmtFollows`, by induction
on the tree, with one lemma for each form of statement of section 4.1 of the specification. A
statement that does not lead to the one behind it leaves the machine in front of a jump to the place
where the run goes on, so that every turn of a loop costs the machine a step.
-/

namespace RoomForge.Code

open RoomForge.Script

variable {V : Type}

/-! ## Behind a statement -/

/-- Where the machine stands behind a statement that ends in front of `finish`, or otherwise. -/
def Arrived (code : List (Instr Nat)) (exits : Exits) (inlined inLoop : Bool) (finish : Nat) :
    Ending → Machine V → Prop
  | .done, m => m.pc = finish
  | .broke, m => inLoop = true ∧ code[m.pc]? = some (.jump exits.loopEnd)
  | .continued, m => inLoop = true ∧ code[m.pc]? = some (.jump exits.loopNext)
  | .left, m => code[m.pc]? = some (if inlined then .jump exits.bodyEnd else .stop)

/-- What is known behind a statement, whatever it declared. -/
structure Behind (code : List (Instr Nat)) (exits : Exits) (inlined inLoop : Bool) (finish : Nat)
    (stack : List V) (pairs : Pairing) (result : Ending × State V) (last : Machine V) : Prop where
  arrived : Arrived code exits inlined inLoop finish result.1 last
  stack : last.stack = stack
  agrees : Agrees pairs result.2 last

/-- What the statement behind another one can rely on. -/
structure Declared (pairs : Pairing) (scope : Scope) (next : Nat) (env : Env) (state : State V)
    (last : Machine V) (more : Pairing) : Prop where
  subset : pairs ⊆ more
  sound : more.Sound next
  agrees : Agrees more state last
  linked : env.Linked more scope

section

variable (interp : Interpretation V) (code : List (Instr Nat)) (fuel : Nat) (setting : Setting)
  (calls : Calls V) (turns : Nat)

/-- The result of a statement and the machine behind its code. -/
def StmtPost (exits : Exits) (scope : Scope) (pairs : Pairing) (compiled : StmtCode)
    (m : Machine V) (result : Ending × Env × State V) (last : Machine V) : Prop :=
  Behind code exits setting.inlined scope.inLoop (m.pc + compiled.code.length) m.stack pairs
      (leaveLevel result) last ∧
    (result.1 = .done → ∃ more,
      Declared pairs compiled.scope compiled.next result.2.1 result.2.2 last more)

/-- The code of a statement does what the statement means. -/
def StmtFollows (stmt : Stmt) : Prop :=
  ∀ (scope : Scope) (env : Env) (next : Nat) (compiled : StmtCode),
    compileStmt setting stmt scope next = .ok compiled →
    ∀ (exits : Exits) (pairs : Pairing) (state : State V) (m : Machine V),
      env.Linked pairs scope → pairs.Sound next → Placed code exits m.pc compiled.code →
      Agrees pairs state m →
      Follows interp code fuel m (execStmt interp calls turns stmt env state)
        (StmtPost code setting exits scope pairs compiled m)

end

variable {interp : Interpretation V} {code : List (Instr Nat)} {fuel : Nat} {setting : Setting}
  {calls : Calls V} {turns : Nat} {scope : Scope} {env : Env} {line next : Nat} {exits : Exits}
  {pairs : Pairing} {state : State V} {m : Machine V}

/-- A statement that declares nothing. -/
theorem StmtPost.of_behind {compiled : StmtCode} {last : Machine V} {ending : Ending}
    (hbehind : Behind code exits setting.inlined scope.inLoop (m.pc + compiled.code.length) m.stack
      pairs (ending, state) last)
    (hlinked : env.Linked pairs compiled.scope) (hsound : pairs.Sound compiled.next) :
    StmtPost code setting exits scope pairs compiled m (ending, env, state) last :=
  ⟨hbehind, fun _ => ⟨pairs, List.Subset.refl pairs, hsound, hbehind.agrees, hlinked⟩⟩

/-! ## Rows of statements -/

/-- What is known behind a row of statements, from what is known behind its first and its rest. -/
theorem StmtPost.of_row {first rest : StmtCode} {middle last : Machine V} {more : Pairing}
    {result : Ending × Env × State V} {between : State V} {inner : Env}
    (hloop : first.scope.inLoop = scope.inLoop) (hpc : middle.pc = m.pc + first.code.length)
    (hstack : middle.stack = m.stack)
    (hmore : Declared pairs first.scope first.next inner between middle more)
    (hrest : StmtPost code setting exits first.scope more rest middle result last) :
    StmtPost code setting exits scope pairs { rest with code := first.code ++ rest.code } m result
      last := by
  obtain ⟨⟨harrived, hlast, hagrees⟩, hdeclared⟩ := hrest
  refine ⟨⟨?_, hlast.trans hstack, hagrees.forget hmore.subset⟩, fun hdone => ?_⟩
  · rw [hloop, hpc, Nat.add_assoc] at harrived
    rwa [List.length_append]
  · obtain ⟨most, hmost⟩ := hdeclared hdone
    exact ⟨most, List.Subset.trans hmore.subset hmost.subset, hmost.sound, hmost.agrees,
      hmost.linked⟩

theorem compileStmts_follows {body : List Stmt}
    (h : ∀ stmt ∈ body, StmtFollows interp code fuel setting calls turns stmt)
    {compiled : StmtCode} (hbody : compileStmts setting body scope next [] = .ok compiled)
    (hlinked : env.Linked pairs scope) (hsound : pairs.Sound next)
    (hplaced : Placed code exits m.pc compiled.code) (hagrees : Agrees pairs state m) :
    Follows interp code fuel m (execStmts interp calls turns body env state)
      (StmtPost code setting exits scope pairs compiled m) := by
  induction body generalizing scope env next compiled pairs state m with
  | nil =>
    rw [compileStmts] at hbody
    obtain rfl := Except.ok.inj hbody
    exact .ok (.of_behind ⟨rfl, rfl, hagrees⟩ hlinked hsound)
  | cons stmt rest ih =>
    obtain ⟨first, tail, hfirst, htail, rfl⟩ := compileStmts_cons_ok hbody
    obtain ⟨hhead, hback⟩ := Placed.append_iff.mp hplaced
    have hloop := compileStmt_inLoop hfirst
    rw [execStmts]
    refine (h stmt List.mem_cons_self scope env next first hfirst exits pairs state m hlinked hsound
      hhead hagrees).bind ?_
    rintro ⟨ending, inner, after⟩ middle ⟨hbehind, hdeclared⟩
    cases ending with
    | done =>
      -- The rest runs under what the first statement has declared as well.
      obtain ⟨more, hmore⟩ := hdeclared rfl
      have hpc : middle.pc = m.pc + first.code.length := hbehind.arrived
      rw [← hpc] at hback
      refine (ih (fun other hother => h other (List.mem_cons_of_mem stmt hother)) htail
        hmore.linked hmore.sound hback hmore.agrees).imp ?_
      intro result last hrest
      exact .of_row hloop hpc hbehind.stack hmore hrest
    | broke | continued | left =>
      exact .ok ⟨⟨hbehind.arrived, hbehind.stack, hbehind.agrees⟩,
        fun hdone => absurd hdone (by simp)⟩

theorem compileOptional_follows {choice : Option Stmt}
    (h : ∀ stmt ∈ choice, StmtFollows interp code fuel setting calls turns stmt)
    {fragment : Option Fragment} {compiled : StmtCode}
    (hchoice : compileOptional setting choice scope next = .ok (fragment, compiled))
    (hlinked : env.Linked pairs scope) (hsound : pairs.Sound next)
    (hplaced : Placed code exits m.pc compiled.code) (hagrees : Agrees pairs state m) :
    Follows interp code fuel m (execOptional interp calls turns choice env state)
      (StmtPost code setting exits scope pairs compiled m) := by
  cases choice with
  | none =>
    obtain ⟨_, rfl⟩ := compileOptional_none_ok hchoice
    exact .ok (.of_behind ⟨rfl, rfl, hagrees⟩ hlinked hsound)
  | some stmt =>
    obtain ⟨hstmt, _⟩ := compileOptional_some_ok hchoice
    exact h stmt rfl scope env next compiled hstmt exits pairs state m hlinked hsound hplaced
      hagrees

/-! ## Tests and turns -/

/-- A test goes on behind itself if its condition holds, and skips `behind` instructions if not. -/
theorem test_follows (hgrow : setting.Growing) (hcalls : CallsFollow interp code fuel setting calls)
    {cond : Option Expr} {condCode : Option Fragment} {middle behind : Nat}
    (hcond : compileCond setting scope line cond next = .ok (condCode, middle))
    (hlinked : env.Linked pairs scope) (hsound : pairs.Sound next)
    (hplaced : Placed code exits m.pc (loopTest condCode behind)) (hagrees : Agrees pairs state m) :
    Follows interp code fuel m (evalCond interp calls env cond state) fun result last =>
      last.pc = m.pc + (loopTest condCode behind).length + (if result.1 then 0 else behind) ∧
        last.stack = m.stack ∧ Agrees pairs result.2 last := by
  rcases compileCond_ok hcond with ⟨rfl, rfl, rfl⟩ | ⟨expr, fragment, rfl, rfl, hvalue⟩
  · exact .ok ⟨rfl, rfl, hagrees⟩
  · obtain ⟨hfirst, hskip⟩ := hplaced.loopTest_some
    rw [evalCond]
    refine ((exprFollows hgrow hcalls expr).value hvalue hlinked hsound hfirst hagrees).bind ?_
    rintro ⟨value, after⟩ last ⟨hpc, hstack, hafter⟩
    rw [← hpc] at hskip
    refine .single hskip (by simp only [Machine.perform, hstack]; rfl) ?_
    refine ⟨?_, rfl, hafter.of_eq rfl rfl⟩
    simp only [loopTest, List.length_append, List.length_singleton, hpc]
    cases interp.holds value <;> simp <;> omega

section

variable (interp code exits) (inlined inLoop : Bool) (start finish : Nat) (stack : List V)
  (pairs : Pairing)

/-- Behind a step there is a jump back to the start of its loop, unless the step leaves the loop. -/
def StepPost (result : Ending × State V) (last : Machine V) : Prop :=
  (if result.1 = .done then code[last.pc]? = some (.jump start)
    else Arrived code exits inlined inLoop finish result.1 last) ∧
    last.stack = stack ∧ Agrees pairs result.2 last

/-- Behind a turn the loop is over, or one step leads back to its start. -/
def TurnPost (result : Option Ending × State V) (last : Machine V) : Prop :=
  match result.1 with
  | some ending => Behind code exits inlined inLoop finish stack pairs (ending, result.2) last
  | none => ∃ after, last.step interp code = some after ∧
      after.pc = start ∧ after.stack = stack ∧ Agrees pairs result.2 after

end

variable {inlined inLoop : Bool} {start first resume finish turnAt : Nat} {stack : List V}
  {test : State V → Run (Bool × State V)} {body step : State V → Run (Ending × State V)}

theorem TurnPost.of_step {ending : Ending} {last : Machine V}
    (h : StepPost code exits inlined inLoop start finish stack pairs (ending, state) last) :
    TurnPost interp code exits inlined inLoop start finish stack pairs
      (if ending = .done then none else some ending, state) last := by
  obtain ⟨harrived, hstack, hagrees⟩ := h
  cases ending with
  | done =>
    exact ⟨{ last with pc := start }, Machine.step_of_getElem? harrived, rfl, hstack,
      hagrees.of_eq rfl rfl⟩
  | broke | continued | left => exact ⟨harrived, hstack, hagrees⟩

/-- The parts of a loop that starts at `start`. Its body stands at `first` and goes on at `resume`,
and a `continue` jumps to `turnAt`; either way the step is next. -/
structure LoopParts (interp : Interpretation V) (code : List (Instr Nat)) (fuel : Nat)
    (exits : Exits) (inlined inLoop : Bool) (start first resume finish turnAt : Nat)
    (stack : List V) (pairs : Pairing) (test : State V → Run (Bool × State V))
    (body step : State V → Run (Ending × State V)) : Prop where
  test : ∀ state m, m.pc = start → m.stack = stack → Agrees pairs state m →
    Follows interp code fuel m (test state) fun result last =>
      last.pc = (if result.1 then first else finish) ∧ last.stack = stack ∧
        Agrees pairs result.2 last
  body : ∀ state m, m.pc = first → m.stack = stack → Agrees pairs state m →
    Follows interp code fuel m (body state)
      (Behind code (exits.insideLoop finish turnAt) inlined true resume stack pairs)
  step : ∀ state m, m.pc = resume ∨ code[m.pc]? = some (.jump turnAt) → m.stack = stack →
    Agrees pairs state m → Follows interp code fuel m (step state)
      (StepPost code exits inlined inLoop start finish stack pairs)

namespace LoopParts

variable (h : LoopParts interp code fuel exits inlined inLoop start first resume finish turnAt stack
  pairs test body step)

include h

theorem turn (state : State V) (m : Machine V)
    (hinv : m.pc = start ∧ m.stack = stack ∧ Agrees pairs state m) :
    Follows interp code fuel m (turn test body step state)
      (TurnPost interp code exits inlined inLoop start finish stack pairs) := by
  obtain ⟨hpc, hstack, hagrees⟩ := hinv
  unfold Code.turn
  refine (h.test state m hpc hstack hagrees).bind ?_
  rintro ⟨holds, tested⟩ atBody ⟨hpc, hstack, hagrees⟩
  cases holds with
  | false => exact .ok ⟨hpc, hstack, hagrees⟩
  | true =>
    refine (h.body tested atBody hpc hstack hagrees).bind ?_
    rintro ⟨ending, turned⟩ atEnd ⟨harrived, hstack, hagrees⟩
    cases ending with
    -- The step is next both behind the body and from a `continue`.
    | done =>
      refine (h.step turned atEnd (.inl harrived) hstack hagrees).bind ?_
      rintro ⟨ending, stepped⟩ last hpost
      cases ending <;> exact .ok (.of_step hpost)
    | continued =>
      refine (h.step turned atEnd (.inr harrived.2) hstack hagrees).bind ?_
      rintro ⟨ending, stepped⟩ last hpost
      cases ending <;> exact .ok (.of_step hpost)
    | broke => exact .single harrived.2 rfl ⟨rfl, hstack, hagrees.of_eq rfl rfl⟩
    | left => exact .ok ⟨harrived, hstack, hagrees⟩

/-- A loop does what its turns mean, as far as the fuel reaches. -/
theorem loop (hfuel : fuel ≤ turns) (hpc : m.pc = start) (hstack : m.stack = stack)
    (hagrees : Agrees pairs state m) :
    Follows interp code fuel m (Code.turns (Code.turn test body step) turns state)
      (Behind code exits inlined inLoop finish stack pairs) := by
  have hloop := Follows.turns h.turn turns state m ⟨hpc, hstack, hagrees⟩
  rwa [Nat.min_eq_right hfuel] at hloop

end LoopParts

/-! ## Statements -/

/-- The code of an initial value leaves it. -/
theorem compileInit_follows (hgrow : setting.Growing)
    (hcalls : CallsFollow interp code fuel setting calls) {init : Option Expr} {fragment : Fragment}
    {behind : Nat} (hinit : compileInit setting scope line init next = .ok (fragment, behind))
    (hlinked : env.Linked pairs scope) (hsound : pairs.Sound next)
    (hplaced : Placed code exits m.pc fragment) (hagrees : Agrees pairs state m) :
    Follows interp code fuel m (evalInit interp calls env init state) fun result last =>
      last.pc = m.pc + fragment.length ∧ last.stack = result.1 :: m.stack ∧
        Agrees pairs result.2 last := by
  cases init with
  | none =>
    obtain ⟨rfl, rfl⟩ := Prod.mk.inj (Except.ok.inj hinit)
    exact .single (Placed.cons_iff.mp hplaced).1 rfl ⟨rfl, rfl, hagrees.of_eq rfl rfl⟩
  | some expr =>
    exact (exprFollows hgrow hcalls expr).value hinit hlinked hsound hplaced hagrees

/-- Storing into the variable `name` is assigning to it. -/
theorem storeName_follows {site : Site} {name : String} {store : Instr Target} {value : V}
    (hstore : storeName site scope name = .ok store) (hlinked : env.Linked pairs scope)
    (hsound : pairs.Sound next) (hplaced : Placed code exits m.pc [store])
    (hstack : m.stack = value :: stack) (hagrees : Agrees pairs state m) :
    Follows interp code fuel m (state.write value (env.lookup name)) fun after last =>
      last.pc = m.pc + 1 ∧ last.stack = stack ∧ Agrees pairs after last := by
  have hinstr := (Placed.cons_iff.mp hplaced).1
  rcases storeName_ok hstore with ⟨slot, hname, rfl⟩ | ⟨id, hname, rfl⟩
  · obtain ⟨referent, hlookup, hsame⟩ := hlinked.lookup_of_resolve? hname
    cases hsame with
    | paired hpair =>
      rw [hlookup]
      refine .single hinstr (by simp only [Instr.mapTarget, Machine.perform, hstack]; rfl) ?_
      exact ⟨rfl, rfl, hagrees.world, hagrees.kept.assign hsound hpair value⟩
  · obtain ⟨referent, hlookup, hsame⟩ := hlinked.lookup_of_resolve? hname
    cases hsame
    rw [hlookup]
    refine .single hinstr (by simp only [Instr.mapTarget, Machine.perform, hstack]; rfl) ?_
    refine ⟨rfl, rfl, ?_, hagrees.kept⟩
    simp only [hagrees.world]

/-- The code of a choice runs one of its ways. -/
theorem ifElse_follows (hgrow : setting.Growing)
    (hcalls : CallsFollow interp code fuel setting calls) {cond : Expr} {yes : Stmt}
    {no : Option Stmt} (hyes : StmtFollows interp code fuel setting calls turns yes)
    (hno : ∀ stmt ∈ no, StmtFollows interp code fuel setting calls turns stmt) :
    StmtFollows interp code fuel setting calls turns (.ifElse line cond yes no) := by
  intro scope env next compiled hcompiled exits pairs state m hlinked hsound hplaced hagrees
  have hle := stmtGrows hgrow _ scope next compiled hcompiled
  obtain ⟨condCode, middle, yesCode, noCode, last, hcond, hyesCode, hnoCode, rfl⟩ :=
    compileStmt_ifElse_ok hcompiled
  have hsoundYes := hsound.mono ((exprGrows hgrow scope line cond).value hcond)
  have hsoundNo := hsoundYes.mono (stmtGrows hgrow yes _ _ _ hyesCode)
  have htest := compileCond_some hcond
  rw [execStmt]
  cases no with
  | none =>
    obtain ⟨rfl, rfl⟩ := compileOptional_none_ok hnoCode
    obtain ⟨htestPlaced, hyesPlaced⟩ := hplaced.choice_none
    refine (test_follows hgrow hcalls htest hlinked hsound htestPlaced hagrees).bind ?_
    rintro ⟨holds, tested⟩ middle ⟨hpc, hstack, hagrees⟩
    cases holds with
    | true =>
      have hpc : middle.pc = m.pc + (loopTest (some condCode) yesCode.code.length).length := hpc
      rw [← hpc] at hyesPlaced
      refine (hyes _ _ _ _ hyesCode exits pairs tested middle (hlinked.enter .block) hsoundYes
        hyesPlaced hagrees).bind ?_
      rintro ⟨ending, _, after⟩ finish ⟨⟨harrived, hstack', hagrees⟩, _⟩
      refine .ok (.of_behind ⟨?_, hstack'.trans hstack, hagrees⟩ hlinked (hsound.mono hle))
      rw [hpc, Nat.add_assoc] at harrived
      rw [length_choice_none]
      exact harrived
    | false =>
      refine .ok (.of_behind ⟨?_, hstack, hagrees⟩ hlinked (hsound.mono hle))
      rw [length_choice_none, ← Nat.add_assoc]
      exact hpc
  | some other =>
    obtain ⟨hother, rfl⟩ := compileOptional_some_ok hnoCode
    obtain ⟨htestPlaced, hyesPlaced, hjump, hnoPlaced⟩ := hplaced.choice_some rfl rfl
    refine (test_follows hgrow hcalls htest hlinked hsound htestPlaced hagrees).bind ?_
    rintro ⟨holds, tested⟩ middle ⟨hpc, hstack, hagrees⟩
    cases holds with
    | true =>
      have hpc : middle.pc = m.pc + (loopTest (some condCode) (yesCode.code.length + 1)).length :=
        hpc
      rw [← hpc] at hyesPlaced hjump
      refine (hyes _ _ _ _ hyesCode exits pairs tested middle (hlinked.enter .block) hsoundYes
        hyesPlaced hagrees).bind ?_
      rintro ⟨ending, _, after⟩ finish ⟨⟨harrived, hstack', hagrees⟩, _⟩
      cases ending with
      | done =>
        -- The first way ends in front of the jump past the second.
        rw [← show finish.pc = middle.pc + yesCode.code.length from harrived] at hjump
        refine .single hjump rfl (.of_behind ⟨?_, hstack'.trans hstack, hagrees.of_eq rfl rfl⟩
          hlinked (hsound.mono hle))
        show finish.pc + 1 + last.code.length = _
        rw [show finish.pc = middle.pc + yesCode.code.length from harrived, hpc, length_choice_some]
        omega
      | broke | continued | left =>
        exact .ok (.of_behind ⟨harrived, hstack'.trans hstack, hagrees⟩ hlinked (hsound.mono hle))
    | false =>
      have hpc : middle.pc = m.pc + (loopTest (some condCode) (yesCode.code.length + 1)).length +
          yesCode.code.length + 1 := hpc
      rw [← hpc] at hnoPlaced
      refine (hno other rfl _ _ _ _ hother exits pairs tested middle (hlinked.enter .block) hsoundNo
        hnoPlaced hagrees).bind ?_
      rintro ⟨ending, _, after⟩ finish ⟨⟨harrived, hstack', hagrees⟩, _⟩
      refine .ok (.of_behind ⟨?_, hstack'.trans hstack, hagrees⟩ hlinked (hsound.mono hle))
      rw [hpc] at harrived
      rw [length_choice_some]
      simp only [Nat.add_assoc] at harrived ⊢
      exact harrived

/-- The body of a loop, which has a level of its own. -/
theorem loopBody_follows {body : Stmt} {compiled : StmtCode} {turnAt finish : Nat}
    (h : StmtFollows interp code fuel setting calls turns body)
    (hbody : compileStmt setting body (scope.push .loop) next = .ok compiled)
    (hlinked : env.Linked pairs scope) (hsound : pairs.Sound next)
    (hplaced : Placed code (exits.insideLoop finish turnAt) m.pc compiled.code)
    (hagrees : Agrees pairs state m) :
    Follows interp code fuel m (leaveLevel <$> execStmt interp calls turns body env.enter state)
      (Behind code (exits.insideLoop finish turnAt) setting.inlined true
        (m.pc + compiled.code.length) m.stack pairs) := by
  have hfollows := h _ _ _ _ hbody _ pairs state m (hlinked.enter .loop) hsound hplaced hagrees
  refine .map (hfollows.imp ?_)
  intro result last hpost
  exact hpost.1

theorem whileLoop_follows (hgrow : setting.Growing)
    (hcalls : CallsFollow interp code fuel setting calls) (hfuel : fuel ≤ turns) {cond : Expr}
    {body : Stmt} (h : StmtFollows interp code fuel setting calls turns body) :
    StmtFollows interp code fuel setting calls turns (.whileLoop line cond body) := by
  intro scope env next compiled hcompiled exits pairs state m hlinked hsound hplaced hagrees
  have hle := stmtGrows hgrow _ scope next compiled hcompiled
  obtain ⟨condCode, middle, bodyCode, hcond, hbody, rfl⟩ := compileStmt_whileLoop_ok hcompiled
  have hsoundBody := hsound.mono ((exprGrows hgrow scope line cond).value hcond)
  obtain ⟨first, hfirst⟩ :
      ∃ first, first = m.pc + (loopTest (some condCode) (bodyCode.code.length + 1)).length :=
    ⟨_, rfl⟩
  obtain ⟨htestPlaced, hbodyPlaced, hback⟩ := hplaced.testLoop hfirst rfl
  have hparts : LoopParts interp code fuel exits setting.inlined scope.inLoop m.pc first
      (first + bodyCode.code.length) (first + bodyCode.code.length + 1) m.pc m.stack pairs
      (evalCond interp calls env (some cond))
      (fun state => leaveLevel <$> execStmt interp calls turns body env.enter state)
      (fun state => .ok (.done, state)) := by
    constructor
    case test =>
      intro state atTest hpc hstack hagrees
      rw [← hpc] at htestPlaced
      refine (test_follows hgrow hcalls (compileCond_some hcond) hlinked hsound htestPlaced
        hagrees).imp ?_
      rintro ⟨holds, tested⟩ last ⟨hlast, hstack', hagrees'⟩
      refine ⟨?_, hstack'.trans hstack, hagrees'⟩
      rw [hlast, hpc, ← hfirst]
      cases holds <;> rfl
    case body =>
      intro state atBody hpc hstack hagrees
      rw [← hpc] at hbodyPlaced
      have hfollows := loopBody_follows h hbody hlinked hsoundBody hbodyPlaced hagrees
      rw [hpc, hstack] at hfollows
      exact hfollows
    case step =>
      intro state atStep hat hstack hagrees
      refine .ok ⟨?_, hstack, hagrees⟩
      rcases hat with hpc | hjump
      · rw [← hpc] at hback
        exact hback
      · exact hjump
  rw [execStmt]
  refine (hparts.loop hfuel rfl rfl hagrees).bind ?_
  rintro ⟨ending, after⟩ last ⟨harrived, hstack, hagrees⟩
  refine .ok (.of_behind ⟨?_, hstack, hagrees⟩ hlinked (hsound.mono hle))
  rw [hfirst] at harrived
  rw [length_testLoop]
  simp only [Nat.add_assoc] at harrived ⊢
  exact harrived

/-- The step of a loop, which stands in front of the jump back and at the end of a jump to it. -/
theorem loopStep_follows {step : Option Stmt} {fragment : Option Fragment} {compiled : StmtCode}
    {resume : Nat} (finish : Nat)
    (h : ∀ stmt ∈ step, StmtFollows interp code fuel setting calls turns stmt)
    (hstep : compileOptional setting step scope next = .ok (fragment, compiled))
    (hlinked : env.Linked pairs scope) (hsound : pairs.Sound next)
    (hplaced : Placed code exits resume compiled.code)
    (hback : code[resume + compiled.code.length]? = some (.jump start))
    (hat : m.pc = resume ∨ code[m.pc]? = some (.jump resume)) (hagrees : Agrees pairs state m) :
    Follows interp code fuel m (leaveLevel <$> execOptional interp calls turns step env state)
      (StepPost code exits setting.inlined scope.inLoop start finish m.stack pairs) := by
  have hthere : ∀ m : Machine V, m.pc = resume → Agrees pairs state m →
      Follows interp code fuel m (leaveLevel <$> execOptional interp calls turns step env state)
        (StepPost code exits setting.inlined scope.inLoop start finish m.stack pairs) := by
    intro m hpc hagrees
    rw [← hpc] at hplaced hback
    refine .map ((compileOptional_follows h hstep hlinked hsound hplaced hagrees).imp ?_)
    rintro ⟨ending, inner, after⟩ last ⟨⟨harrived, hstack, hagrees⟩, _⟩
    refine ⟨?_, hstack, hagrees⟩
    cases ending with
    | done =>
      rw [← show last.pc = m.pc + compiled.code.length from harrived] at hback
      exact hback
    | broke | continued | left => exact harrived
  rcases hat with hpc | hjump
  · exact hthere m hpc hagrees
  · have hmove : m.step interp code = some { m with pc := resume } := Machine.step_of_getElem? hjump
    exact .of_step hmove (hthere _ rfl (hagrees.of_eq rfl rfl))

theorem forLoop_follows (hgrow : setting.Growing)
    (hcalls : CallsFollow interp code fuel setting calls) (hfuel : fuel ≤ turns)
    {init step : Option Stmt} {cond : Option Expr} {body : Stmt}
    (hinit : ∀ stmt ∈ init, StmtFollows interp code fuel setting calls turns stmt)
    (hstep : ∀ stmt ∈ step, StmtFollows interp code fuel setting calls turns stmt)
    (hbody : StmtFollows interp code fuel setting calls turns body) :
    StmtFollows interp code fuel setting calls turns (.forLoop line init cond step body) := by
  intro scope env next compiled hcompiled exits pairs state m hlinked hsound hplaced hagrees
  have hle := stmtGrows hgrow _ scope next compiled hcompiled
  obtain ⟨initCode, head, condLine, condCode, middle, bodyCode, stepCode, last, hhead, hcond,
    hbodyCode, hstepCode, rfl⟩ := compileStmt_forLoop_ok hcompiled
  have hinLoop : head.scope.inLoop = (scope.push .block).inLoop := compileOptional_inLoop hhead
  simp only [compileOptional_code hhead, compileOptional_code hstepCode] at hplaced ⊢
  obtain ⟨hheadPlaced, hloopPlaced⟩ := Placed.append_iff.mp hplaced
  rw [execStmt]
  refine (compileOptional_follows hinit hhead (hlinked.enter .block) hsound hheadPlaced
    hagrees).bind ?_
  rintro ⟨ending, inner, headed⟩ atLoop ⟨hbehind, hdeclared⟩
  cases ending with
  | broke | continued | left =>
    exact .ok (.of_behind ⟨hbehind.arrived, hbehind.stack, hbehind.agrees⟩ hlinked
      (hsound.mono hle))
  | done =>
    obtain ⟨more, hmore⟩ := hdeclared rfl
    have hpc : atLoop.pc = m.pc + head.code.length := hbehind.arrived
    rw [← hpc] at hloopPlaced
    obtain ⟨first, hfirst⟩ : ∃ first, first = atLoop.pc + (loopTest condCode
        (bodyCode.code.length + last.code.length + 1)).length := ⟨_, rfl⟩
    obtain ⟨htestPlaced, hbodyPlaced, hstepPlaced, hback⟩ := hloopPlaced.stepLoop hfirst rfl
    have hsoundBody := hmore.sound.mono (compileCond_next_le hgrow hcond)
    have hsoundStep := hsoundBody.mono (stmtGrows hgrow body _ _ _ hbodyCode)
    have hparts : LoopParts interp code fuel exits setting.inlined scope.inLoop atLoop.pc first
        (first + bodyCode.code.length) (first + bodyCode.code.length + last.code.length + 1)
        (first + bodyCode.code.length) atLoop.stack more (evalCond interp calls inner cond)
        (fun state => leaveLevel <$> execStmt interp calls turns body inner.enter state)
        (fun state => leaveLevel <$> execOptional interp calls turns step inner state) := by
      constructor
      case test =>
        intro state atTest hpc hstack hagrees
        rw [← hpc] at htestPlaced
        refine (test_follows hgrow hcalls hcond hmore.linked hmore.sound htestPlaced hagrees).imp ?_
        rintro ⟨holds, tested⟩ last ⟨hlast, hstack', hagrees'⟩
        refine ⟨?_, hstack'.trans hstack, hagrees'⟩
        rw [hlast, hpc, ← hfirst]
        cases holds
        · simp only [Bool.false_eq_true, if_false]
          omega
        · rfl
      case body =>
        intro state atBody hpc hstack hagrees
        rw [← hpc] at hbodyPlaced
        have hfollows := loopBody_follows hbody hbodyCode hmore.linked hsoundBody hbodyPlaced
          hagrees
        rw [hpc, hstack] at hfollows
        exact hfollows
      case step =>
        intro state atStep hat hstack hagrees
        have hfollows := loopStep_follows
          (first + bodyCode.code.length + last.code.length + 1) hstep hstepCode hmore.linked
          hsoundStep hstepPlaced hback hat hagrees
        rw [hstack, hinLoop] at hfollows
        exact hfollows
    refine (hparts.loop hfuel rfl rfl hmore.agrees).bind ?_
    rintro ⟨ending, after⟩ finish ⟨harrived, hstack, hagrees⟩
    refine .ok (.of_behind ⟨?_, hstack.trans hbehind.stack, hagrees.forget hmore.subset⟩ hlinked
      (hsound.mono hle))
    rw [hfirst, hpc] at harrived
    rw [List.length_append, length_stepLoop]
    simp only [Nat.add_assoc] at harrived ⊢
    exact harrived

theorem var_follows (hgrow : setting.Growing) (hcalls : CallsFollow interp code fuel setting calls)
    {name : String} {init : Option Expr} :
    StmtFollows interp code fuel setting calls turns (.var line name init) := by
  intro scope env next compiled hcompiled exits pairs state m hlinked hsound hplaced hagrees
  obtain ⟨slot, fragment, behind, hslot, hinit, rfl⟩ := compileStmt_var_ok hcompiled
  obtain ⟨_, hslot⟩ := newSlot_ok hslot
  have hlt : next < behind := compileInit_next_le hgrow hinit
  obtain ⟨hfirst, hlast⟩ := Placed.append_iff.mp hplaced
  rw [execStmt]
  refine (compileInit_follows hgrow hcalls hinit hlinked (hsound.mono (Nat.le_succ next)) hfirst
    hagrees).bind ?_
  rintro ⟨value, after⟩ middle ⟨hpc, hstack, hagrees⟩
  have hinstr := (Placed.cons_iff.mp hlast).1
  rw [← hpc] at hinstr
  have hkept := hagrees.kept.alloc hsound hslot value
  refine .single hinstr (by simp only [Instr.mapTarget, Machine.perform, hstack]; rfl) ?_
  refine ⟨⟨?_, rfl, hagrees.world, ?_⟩, fun _ => ⟨(after.cells.length, slot) :: pairs, ?_⟩⟩
  · show middle.pc + 1 = m.pc + (fragment ++ [_]).length
    rw [hpc, List.length_append, Nat.add_assoc]
    rfl
  · exact fun pair hpair => hkept pair (List.mem_cons_of_mem _ hpair)
  · refine ⟨List.subset_cons_self _ _, ?_, ⟨hagrees.world, hkept⟩, ?_⟩
    · exact hsound.cons hagrees.kept.ne_length hslot hlt
    · exact (hlinked.mono (List.subset_cons_self _ _)).bindCell name List.mem_cons_self

theorem assign_follows (hgrow : setting.Growing)
    (hcalls : CallsFollow interp code fuel setting calls) {name : String} {value : Expr} :
    StmtFollows interp code fuel setting calls turns (.assign line name value) := by
  intro scope env next compiled hcompiled exits pairs state m hlinked hsound hplaced hagrees
  have hle := stmtGrows hgrow _ scope next compiled hcompiled
  obtain ⟨store, fragment, behind, hstore, hvalue, rfl⟩ := compileStmt_assign_ok hcompiled
  obtain ⟨hfirst, hlast⟩ := Placed.append_iff.mp hplaced
  rw [execStmt]
  refine ((exprFollows hgrow hcalls value).value hvalue hlinked hsound hfirst hagrees).bind ?_
  rintro ⟨value, after⟩ middle ⟨hpc, hstack, hagrees⟩
  rw [← hpc] at hlast
  refine (storeName_follows hstore hlinked hsound hlast hstack hagrees).bind ?_
  rintro final last ⟨hpc', hstack', hagrees⟩
  refine .ok (.of_behind ⟨?_, hstack', hagrees⟩ hlinked (hsound.mono hle))
  show last.pc = _
  rw [hpc', hpc, List.length_append, Nat.add_assoc]
  rfl

/-- A value that an evaluation leaves is dropped. -/
theorem eval_follows (hgrow : setting.Growing) (hcalls : CallsFollow interp code fuel setting calls)
    {expr : Expr} : StmtFollows interp code fuel setting calls turns (.eval line expr) := by
  intro scope env next compiled hcompiled exits pairs state m hlinked hsound hplaced hagrees
  have hle := stmtGrows hgrow _ scope next compiled hcompiled
  obtain ⟨inner, hinner, rfl⟩ := compileStmt_eval_ok hcompiled
  obtain ⟨hfirst, hlast⟩ := Placed.append_iff.mp hplaced
  rw [execStmt]
  refine (exprFollows hgrow hcalls expr _ _ _ _ _ hinner exits pairs state m hlinked hsound hfirst
    hagrees).bind ?_
  rintro ⟨value, after⟩ middle ⟨hpc, hstack, hsome, hagrees⟩
  cases value with
  | none =>
    rw [← show false = inner.value from hsome]
    refine .ok (.of_behind ⟨?_, hstack, hagrees⟩ hlinked (hsound.mono hle))
    simpa [Arrived] using hpc
  | some value =>
    rw [← show true = inner.value from hsome] at hlast ⊢
    have hpop := (Placed.cons_iff.mp hlast).1
    rw [← hpc] at hpop
    refine .single hpop (by simp only [Instr.mapTarget, Machine.perform, hstack]; rfl) ?_
    refine .of_behind ⟨?_, rfl, hagrees.of_eq rfl rfl⟩ hlinked (hsound.mono hle)
    show middle.pc + 1 = _
    rw [hpc, List.length_append, Nat.add_assoc]
    rfl

/-- The machine follows every statement. -/
theorem stmtFollows (hgrow : setting.Growing) (hcalls : CallsFollow interp code fuel setting calls)
    (hfuel : fuel ≤ turns) (stmt : Stmt) :
    StmtFollows interp code fuel setting calls turns stmt := by
  induction stmt using Stmt.induction with
  | block line body ih =>
    intro scope env next compiled hcompiled exits pairs state m hlinked hsound hplaced hagrees
    have hle := stmtGrows hgrow _ scope next compiled hcompiled
    obtain ⟨inner, hinner, rfl⟩ := compileStmt_block_ok hcompiled
    rw [execStmt]
    refine (compileStmts_follows ih hinner (hlinked.enter .block) hsound hplaced hagrees).bind ?_
    rintro ⟨ending, _, after⟩ last ⟨hbehind, _⟩
    exact .ok (.of_behind hbehind hlinked (hsound.mono hle))
  | var line name init => exact var_follows hgrow hcalls
  | const line name value =>
    intro scope env next compiled hcompiled exits pairs state m hlinked hsound hplaced hagrees
    obtain rfl := compileStmt_const_ok hcompiled
    rw [execStmt_const]
    exact .ok (.of_behind ⟨rfl, rfl, hagrees⟩ (hlinked.bindConst ⟨name, value⟩) hsound)
  | assign line name value => exact assign_follows hgrow hcalls
  | eval line expr => exact eval_follows hgrow hcalls
  | ifElse line cond yes no ihYes ihNo => exact ifElse_follows hgrow hcalls ihYes ihNo
  | whileLoop line cond body ih => exact whileLoop_follows hgrow hcalls hfuel ih
  | forLoop line init cond step body ihInit ihStep ihBody =>
    exact forLoop_follows hgrow hcalls hfuel ihInit ihStep ihBody
  | breakLoop line =>
    intro scope env next compiled hcompiled exits pairs state m hlinked hsound hplaced hagrees
    obtain ⟨hloop, rfl⟩ := compileStmt_breakLoop_ok hcompiled
    rw [execStmt]
    exact .ok (.of_behind ⟨⟨hloop, (Placed.cons_iff.mp hplaced).1⟩, rfl, hagrees⟩ hlinked hsound)
  | continueLoop line =>
    intro scope env next compiled hcompiled exits pairs state m hlinked hsound hplaced hagrees
    obtain ⟨hloop, rfl⟩ := compileStmt_continueLoop_ok hcompiled
    rw [execStmt]
    exact .ok (.of_behind ⟨⟨hloop, (Placed.cons_iff.mp hplaced).1⟩, rfl, hagrees⟩ hlinked hsound)
  | leave line =>
    intro scope env next compiled hcompiled exits pairs state m hlinked hsound hplaced hagrees
    obtain rfl := compileStmt_leave_ok hcompiled
    rw [execStmt]
    refine .ok (.of_behind ⟨?_, rfl, hagrees⟩ hlinked hsound)
    show code[m.pc]? = some (if setting.inlined then .jump exits.bodyEnd else .stop)
    rw [(Placed.cons_iff.mp hplaced).1]
    cases setting.inlined <;> rfl

end RoomForge.Code
