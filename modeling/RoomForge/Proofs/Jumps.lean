import RoomForge.Proofs.StackDepth

set_option autoImplicit false

/-! # Jumps of finished code

The code of a function can always be finished: each jump to a role is settled by the loop or the
body around it, so none is left over. All jumps then lead to instructions of the function, and the
only way out of its code is the end of the script, which every function has (specification, section
4.3): `compileListing_selfContained`. No function is refused for a jump without a target.
-/

namespace RoomForge.Code

open RoomForge.Script

/-! ## Settled jumps -/

/-- A target that can be finished at `index`, once the roles of the place around it are settled. -/
def Target.Within (inlined inLoop : Bool) (index : Nat) : Target → Prop
  | .apart distance => 0 ≤ (index : Int) + distance
  | .loopEnd | .loopNext => inLoop = true
  | .bodyEnd => inlined = true

/-- All targets of a fragment that stands at `start` can be finished. -/
def ClosedAt (inlined inLoop : Bool) : (start : Nat) → Fragment → Prop :=
  EachAt fun index instr => ∀ target ∈ instr.target?, target.Within inlined inLoop index

section

variable {inlined inLoop : Bool} {start : Nat}

/-- A loop settles its roles, if it ends and goes on at places of the code. -/
theorem Target.Within.settle_loop {ending turn : Int} {index : Nat} {target : Target}
    (hending : 0 ≤ (start : Int) + ending) (hturn : 0 ≤ (start : Int) + turn)
    (h : target.Within inlined true (start + index)) :
    (target.settle (.ofLoop ending turn) index).Within inlined inLoop (start + index) := by
  cases target with
  | apart distance => exact h
  | bodyEnd => exact h
  | loopEnd | loopNext =>
    simp only [Target.settle, Places.ofLoop, Target.Within]
    omega

/-- An inlined body settles its role. -/
theorem Target.Within.settle_body {ending index : Nat} {target : Target}
    (h : target.Within true false (start + index)) :
    (target.settle (.ofBody ending) index).Within inlined inLoop (start + index) := by
  cases target with
  | apart distance => exact h
  | bodyEnd =>
    simp only [Target.settle, Places.ofBody, Target.Within]
    omega
  | loopEnd | loopNext => exact absurd h (by simp [Target.Within])

/-- Settling keeps what can be finished. -/
theorem ClosedAt.settle {innerInlined innerLoop : Bool} {places : Places} {fragment : Fragment}
    (hplaces : ∀ (target : Target) (index : Nat),
      target.Within innerInlined innerLoop (start + index) →
        (target.settle places index).Within inlined inLoop (start + index))
    (h : ClosedAt innerInlined innerLoop start fragment) :
    ClosedAt inlined inLoop start (fragment.settle places) := by
  refine EachAt.settle_iff.mpr ?_
  intro index instr hinstr settled hsettled
  rw [Instr.target?_mapTarget] at hsettled
  obtain ⟨target, htarget, rfl⟩ := Option.map_eq_some_iff.mp hsettled
  exact hplaces target index (h index instr hinstr target htarget)

theorem ClosedAt.append {first second : Fragment} (hfirst : ClosedAt inlined inLoop start first)
    (hsecond : ClosedAt inlined inLoop (start + first.length) second) :
    ClosedAt inlined inLoop start (first ++ second) :=
  EachAt.append_iff.mpr ⟨hfirst, hsecond⟩

theorem ClosedAt.of_jump {target : Target} (h : target.Within inlined inLoop start) :
    ClosedAt inlined inLoop start [.jump target] :=
  EachAt.singleton_iff.mpr fun _ hother => Option.some.inj hother ▸ h

theorem Values.closedAt {count : Nat} {fragment : Fragment} (h : Values count fragment) :
    ClosedAt inlined inLoop start fragment := by
  induction h with
  | nil => exact EachAt.nil
  | snoc _ instr htarget _ _ ih =>
    refine EachAt.append_iff.mpr ⟨ih, EachAt.singleton_iff.mpr ?_⟩
    intro target hother
    rw [htarget] at hother
    exact absurd hother (by simp)

theorem ClosedAt.loopTest {cond : Option Fragment} (h : ∀ test ∈ cond, Values 1 test)
    (behind : Nat) : ClosedAt inlined inLoop start (loopTest cond behind) := by
  cases cond with
  | none => exact EachAt.nil
  | some test =>
    refine EachAt.append_iff.mpr ⟨(h test rfl).closedAt, EachAt.singleton_iff.mpr ?_⟩
    intro target htarget
    obtain rfl := Option.some.inj htarget
    simp only [Target.Within]
    omega

/-- The jumps of a loop can be finished if those of its parts can, and its turns do not go on in
front of the code. -/
theorem ClosedAt.turnLoop {cond : Option Fragment} {body step : Fragment} {turn : Int}
    (hcond : ∀ test ∈ cond, Values 1 test) (hbody : ∀ place, ClosedAt inlined true place body)
    (hstep : ∀ place, ClosedAt inlined inLoop place step)
    (hturn : 0 ≤ (start : Int) +
      (Code.loopTest cond (body.length + step.length + 1)).length + turn) :
    ClosedAt inlined inLoop start (turnLoop cond body step turn) := by
  refine .append (.append (.loopTest hcond _) (.append (.settle (fun target index => ?_) (hbody _))
    (hstep _))) (.of_jump ?_)
  · exact Target.Within.settle_loop (by omega) (by omega)
  · simp only [Target.Within]
    omega

/-- The jumps of a statement's code can be finished, up to the roles of its place. -/
theorem Structured.closedAt {fragment : Fragment} (h : Structured inlined inLoop fragment) :
    ClosedAt inlined inLoop start fragment := by
  induction h generalizing start with
  | straight hcode => exact hcode.closedAt
  | append _ _ ihFirst ihSecond => exact .append ihFirst ihSecond
  | @choice _ _ cond yes no hcond _ _ ihYes ihNo =>
    have htests : ∀ test ∈ some cond, Values 1 test := by simpa using hcond
    cases no with
    | none =>
      rw [choice_none_eq]
      exact .append (.loopTest htests _) ihYes
    | some other =>
      rw [choice_some_eq, ← List.singleton_append]
      refine .append (.loopTest htests _) (.append ihYes (.append (.of_jump ?_) (ihNo other rfl)))
      simp only [Target.Within]
      omega
  | testLoop hcond _ ih =>
    rw [testLoop_eq_turnLoop]
    refine .turnLoop (by simpa using hcond) (fun _ => ih) (fun _ => EachAt.nil) ?_
    rw [List.length_nil, Nat.add_zero]
    omega
  | stepLoop hcond _ _ ihBody ihStep =>
    rw [stepLoop_eq_turnLoop]
    exact .turnLoop hcond (fun _ => ihBody) (fun _ => ihStep) (by omega)
  | breakLoop | continueLoop | leaveBody => exact .of_jump rfl
  | stop =>
    refine EachAt.singleton_iff.mpr fun target htarget => ?_
    exact absurd htarget (by simp [Instr.target?])
  | body _ ih => exact .settle (fun target index => Target.Within.settle_body) ih

end

/-- A fragment without open roles can be finished. -/
theorem exists_link? {fragment : Fragment} (h : ClosedAt false false 0 fragment) :
    ∃ code, fragment.link? = some code := by
  simp only [link?_eq_some_iff]
  refine exists_forall₂ ?_
  rintro ⟨instr, index⟩ hmem
  have htargets := h index instr (List.mem_zipIdx_iff_getElem?.mp hmem)
  rw [Nat.zero_add] at htargets
  have hplace : ∀ target ∈ instr.target?, ∃ place, target.index? index = some place := by
    intro target htarget
    have hwithin := htargets target htarget
    cases target with
    | apart distance => exact ⟨_, if_pos hwithin⟩
    | loopEnd | loopNext | bodyEnd => exact absurd hwithin (by simp [Target.Within])
  cases instr with
  | jump target | jumpIfFalse target =>
    obtain ⟨place, hindex⟩ := hplace target rfl
    simp [Instr.link?, hindex]
  | _ => exact ⟨_, rfl⟩

/-! ## Compilation never leaves a jump without a place -/

/-- The failure of a jump that has no place to go. -/
def CompileError.IsDangling : CompileError → Prop
  | .danglingJump _ => True
  | _ => False

/-- Expansions do not fail for want of a place. -/
def Setting.Avoids (setting : Setting) : Prop :=
  ∀ routine next, RoomForge.Avoids CompileError.IsDangling (setting.expand routine next)

section

variable {setting : Setting} {scope : Scope} {line next : Nat} {site : Site}

theorem not_isDangling_of_isMisfit (fault : CompileError) (h : fault.IsMisfit) :
    ¬ fault.IsDangling := by
  cases fault with
  | danglingJump => exact absurd h id
  | _ => exact id

theorem callRoutine_avoids (h : setting.Avoids) (name : String) (routine : Routine) (argc : Nat) :
    Avoids CompileError.IsDangling (callRoutine setting site name routine argc next) := by
  unfold callRoutine
  split
  · exact .error id
  · split
    · exact (h routine next).bind fun _ _ => .ok
    · split
      · exact .ok
      · exact .error id

theorem compileArgs_avoids {args : List Expr}
    (h : ∀ arg ∈ args, ∀ next,
      Avoids CompileError.IsDangling (compileExpr setting scope line arg next)) (next : Nat) :
    Avoids CompileError.IsDangling (compileArgs setting scope line args next) := by
  induction args generalizing next with
  | nil => exact .ok
  | cons arg rest ih =>
    rw [compileArgs]
    refine (h arg List.mem_cons_self next).bind fun compiled _ => ?_
    refine (requireValue_avoids not_isDangling_of_isMisfit _ arg compiled).bind fun value _ => ?_
    exact (ih (fun other hother => h other (List.mem_cons_of_mem arg hother)) _).bind fun _ _ => .ok

theorem compileExpr_avoids (h : setting.Avoids) (expr : Expr) (next : Nat) :
    Avoids CompileError.IsDangling (compileExpr setting scope line expr next) := by
  induction expr using Expr.induction generalizing next with
  | int value =>
    rw [compileExpr]
    exact (pushNumber_avoids not_isDangling_of_isMisfit _ value).bind fun _ _ => .ok
  | str text =>
    rw [compileExpr]
    exact .ok
  | ident name =>
    rw [compileExpr]
    exact (pushName_avoids not_isDangling_of_isMisfit _ _ name).bind fun _ _ => .ok
  | call name args ih =>
    rw [compileExpr]
    split
    · split
      · exact .error id
      · exact (compileArgs_avoids ih next).bind fun _ _ => .ok
    · exact callRoutine_avoids h name _ args.length
    all_goals exact .error id
  | unary op expr ih =>
    rw [compileExpr]
    refine (ih next).bind fun compiled _ => ?_
    exact (requireValue_avoids not_isDangling_of_isMisfit _ expr compiled).bind fun _ _ => .ok
  | binary op left right ihLeft ihRight =>
    rw [compileExpr]
    refine (ihLeft next).bind fun compiled _ => ?_
    refine (requireValue_avoids not_isDangling_of_isMisfit _ left compiled).bind fun value _ => ?_
    refine (ihRight _).bind fun compiled _ => ?_
    exact (requireValue_avoids not_isDangling_of_isMisfit _ right compiled).bind fun _ _ => .ok

theorem compileValue_avoids (h : setting.Avoids) (expr : Expr) (next : Nat) :
    Avoids CompileError.IsDangling (compileValue setting scope line expr next) := by
  refine (compileExpr_avoids h expr next).bind fun compiled _ => ?_
  exact (requireValue_avoids not_isDangling_of_isMisfit _ expr compiled).bind fun _ _ => .ok

theorem compileInit_avoids (h : setting.Avoids) (init : Option Expr) (next : Nat) :
    Avoids CompileError.IsDangling (compileInit setting scope line init next) := by
  cases init with
  | none => exact .ok
  | some init => exact compileValue_avoids h init next

theorem compileCond_avoids (h : setting.Avoids) (cond : Option Expr) (next : Nat) :
    Avoids CompileError.IsDangling (compileCond setting scope line cond next) := by
  cases cond with
  | none => exact .ok
  | some cond => exact (compileValue_avoids h cond next).bind fun _ _ => .ok

/-- A statement does not fail for want of a place. -/
def StmtAvoids (setting : Setting) (stmt : Stmt) : Prop :=
  ∀ scope next, Avoids CompileError.IsDangling (compileStmt setting stmt scope next)

theorem compileStmts_avoids {body : List Stmt} (h : ∀ stmt ∈ body, StmtAvoids setting stmt)
    (scope : Scope) (next : Nat) (taken : List Fragment) :
    Avoids CompileError.IsDangling (compileStmts setting body scope next taken) := by
  induction body generalizing scope next taken with
  | nil => exact .ok
  | cons stmt rest ih =>
    rw [compileStmts]
    refine (h stmt List.mem_cons_self scope next).bind fun compiled _ => ?_
    exact ih (fun other hother => h other (List.mem_cons_of_mem stmt hother)) _ _ _

theorem compileOptional_avoids {choice : Option Stmt}
    (h : ∀ stmt ∈ choice, StmtAvoids setting stmt) (scope : Scope) (next : Nat) :
    Avoids CompileError.IsDangling (compileOptional setting choice scope next) := by
  cases choice with
  | none => exact .ok
  | some stmt => exact (h stmt rfl scope next).bind fun _ _ => .ok

theorem stmtAvoids (h : setting.Avoids) (stmt : Stmt) : StmtAvoids setting stmt := by
  induction stmt using Stmt.induction with
  | block line body ih =>
    intro scope next
    rw [compileStmt]
    exact (compileStmts_avoids ih _ next []).bind fun _ _ => .ok
  | var line name init =>
    intro scope next
    rw [compileStmt]
    refine (newSlot_avoids id _).bind fun slot _ => ?_
    exact (compileInit_avoids h init _).bind fun _ _ => .ok
  | const line name value =>
    intro scope next
    rw [compileStmt]
    exact .ok
  | assign line name value =>
    intro scope next
    rw [compileStmt]
    refine (storeName_avoids not_isDangling_of_isMisfit _ _ name).bind fun store _ => ?_
    exact (compileValue_avoids h value next).bind fun _ _ => .ok
  | eval line expr =>
    intro scope next
    rw [compileStmt]
    exact (compileExpr_avoids h expr next).bind fun _ _ => .ok
  | ifElse line cond yes no ihYes ihNo =>
    intro scope next
    rw [compileStmt]
    refine (compileValue_avoids h cond next).bind fun condCode _ => ?_
    refine (ihYes _ _).bind fun yesCode _ => ?_
    exact (compileOptional_avoids ihNo _ _).bind fun _ _ => .ok
  | whileLoop line cond body ih =>
    intro scope next
    rw [compileStmt]
    refine (compileValue_avoids h cond next).bind fun condCode _ => ?_
    exact (ih _ _).bind fun _ _ => .ok
  | forLoop line init cond step body ihInit ihStep ihBody =>
    intro scope next
    rw [compileStmt]
    refine (compileOptional_avoids ihInit _ next).bind fun head _ => ?_
    refine (compileCond_avoids h cond _).bind fun condCode _ => ?_
    refine (ihBody _ _).bind fun bodyCode _ => ?_
    exact (compileOptional_avoids ihStep _ _).bind fun _ _ => .ok
  | breakLoop line | continueLoop line =>
    intro scope next
    rw [compileStmt]
    split
    · exact .ok
    · exact .error id
  | leave line =>
    intro scope next
    rw [compileStmt]
    exact .ok

end

theorem expandCall_avoids (function : String) (room : Scope) (depth : Nat) (calls : List String)
    (inlined : Bool) :
    Setting.Avoids ⟨function, inlined, expandCall function room depth calls⟩ := by
  induction depth generalizing calls inlined with
  | zero => exact fun routine next => .error id
  | succ depth ih =>
    intro routine next
    simp only [expandCall]
    split
    · exact .error id
    · exact (stmtAvoids (ih (routine.name :: calls) true) routine.body _ next).bind fun _ _ => .ok

/-- All jumps of a function find their places. -/
theorem compileListing_avoids (room : Scope) (routine : Routine) :
    Avoids CompileError.IsDangling (compileListing room routine) := by
  have hsetting : (Setting.ofRoutine room routine).Avoids :=
    expandCall_avoids routine.name room (room.routines.length + 1) [] false
  refine (stmtAvoids hsetting routine.body _ 0).bind fun body hbody => ?_
  have hwhole : Structured false false (body.code ++ [.stop]) :=
    .append (compileBody_structured hbody) .stop
  obtain ⟨code, hcode⟩ := exists_link? hwhole.closedAt
  rw [hcode]
  exact .ok

/-! ## Bytes of jumps -/

theorem size_byteStarts {τ : Type} (instrs : List (Instr τ)) :
    (byteStarts instrs).size = instrs.length + 1 := by
  have hsize : ∀ (rest : List (Instr τ)) (acc : Array Nat × Nat),
      (rest.foldl (fun (acc : Array Nat × Nat) instr =>
        (acc.1.push acc.2, acc.2 + instr.size)) acc).1.size = acc.1.size + rest.length := by
    intro rest
    induction rest with
    | nil => intro acc; rfl
    | cons instr rest ih =>
      intro acc
      rw [List.foldl_cons, ih, Array.size_push, List.length_cons]
      omega
  simp [byteStarts, hsize]

/-- A jump between instructions has a distance, though it may be too far. -/
theorem jumpDistance_avoids (function : String) {starts : Array Nat} {index target : Nat}
    (hindex : index + 1 < starts.size) (htarget : target < starts.size) :
    Avoids CompileError.IsDangling (jumpDistance function starts index target) := by
  unfold jumpDistance
  rw [Array.getElem?_eq_getElem htarget, Array.getElem?_eq_getElem hindex]
  simp only
  split
  · exact .ok
  · exact .error id

/-- Code whose jumps lead to its own instructions is encoded without looking beyond its end. -/
theorem encode_avoids (function : String) {instrs : List (Instr Nat)}
    (h : ∀ (index : Nat) (instr : Instr Nat), instrs[index]? = some instr →
      ∀ target ∈ instr.target?, target < instrs.length) :
    Avoids CompileError.IsDangling (encode function instrs) := by
  refine encode_avoids_of_jumps fun index instr hinstr target htarget => ?_
  have hindex : index < instrs.length := (List.getElem?_eq_some_iff.mp hinstr).1
  have hlt := h index instr hinstr target htarget
  apply jumpDistance_avoids
  · rw [size_byteStarts]
    omega
  · rw [size_byteStarts]
    omega

/-! ## Runs stay inside -/

section

variable {V : Type} {interp : Interpretation V} {code : List (Instr Nat)}

/-- An instruction in order that is not the last one leads to another instruction. -/
theorem Orderly.successors_lt {index : Nat} {instr : Instr Nat} (h : Orderly code index instr)
    (hlast : code.getLast? = some .stop) (hinstr : code[index]? = some instr) :
    ∀ next ∈ instr.successors index, next < code.length := by
  intro next hnext
  have hindex : index < code.length := (List.getElem?_eq_some_iff.mp hinstr).1
  -- Nothing lies behind the last instruction, but that one is the end of the script.
  have hbehind : instr ≠ .stop → index + 1 < code.length := by
    intro hne
    by_contra hend
    obtain rfl : index = code.length - 1 := by omega
    rw [List.getLast?_eq_getElem?, hinstr] at hlast
    exact hne (Option.some.inj hlast)
  cases instr with
  | jump target =>
    obtain rfl := List.mem_singleton.mp hnext
    exact (h.lands next rfl).inside
  | jumpIfFalse target =>
    rcases List.mem_pair.mp hnext with rfl | rfl
    · exact hbehind (by simp)
    · exact (h.lands next rfl).inside
  | stop => exact absurd hnext List.not_mem_nil
  | _ =>
    obtain rfl := List.mem_singleton.mp hnext
    exact hbehind (by simp)

/-- A run of code in order stays inside of it, and goes on up to the end of the script. -/
theorem Region.steps (h : Region code 0 code.length) (hlast : code.getLast? = some .stop) {n : Nat}
    {m last : Machine V} (hpc : m.pc < code.length) (hdepth : m.stack.length = depthAt code m.pc)
    (hsteps : m.steps interp code n = some last) :
    last.pc < code.length ∧ (last.AtStop code ∨ ∃ next, last.step interp code = some next) := by
  have horderly : ∀ (m : Machine V), m.pc < code.length →
      ∃ instr, code[m.pc]? = some instr ∧ Orderly code m.pc instr := by
    intro m hpc
    have hinstr := List.getElem?_eq_getElem hpc
    exact ⟨_, hinstr, h m.pc _ (Nat.zero_le _) hpc hinstr⟩
  induction n generalizing m with
  | zero =>
    obtain rfl := Option.some.inj hsteps
    refine ⟨hpc, ?_⟩
    obtain ⟨instr, hinstr, hinOrder⟩ := horderly m hpc
    by_cases hstop : instr = .stop
    · rw [hstop] at hinstr
      exact .inl hinstr
    · rw [Machine.step_of_getElem? hinstr]
      exact .inr (Machine.exists_perform (hdepth ▸ hinOrder.operands) hstop)
  | succ n ih =>
    -- A step stays inside and keeps the depth, which the next instruction needs for its operands.
    obtain ⟨next, hnext, hrest⟩ := Option.bind_eq_some_iff.mp hsteps
    obtain ⟨instr, hinstr, hinOrder⟩ := horderly m hpc
    have hperform := Machine.step_of_getElem? hinstr ▸ hnext
    have hinside := hinOrder.successors_lt hlast hinstr next.pc (Machine.perform_spec hperform).2
    exact ih hinside (h.discipline.step hdepth hnext) hrest

end

/-- Code that can only be left through the end of the script. -/
structure SelfContained (code : List (Instr Nat)) : Prop where
  ends : code.getLast? = some .stop
  /-- Jumps lead to instructions of the code. -/
  jumps : ∀ (index : Nat) (instr : Instr Nat), code[index]? = some instr →
    ∀ target ∈ instr.target?, target < code.length
  /-- A run is always at an instruction, and goes on unless that is the end of the script. -/
  runs : ∀ (V : Type) (interp : Interpretation V) (locals : UInt8 → V) (world : World V) (n : Nat)
    (m : Machine V), (Machine.start locals world).steps interp code n = some m →
    m.pc < code.length ∧ (m.AtStop code ∨ ∃ next, m.step interp code = some next)

theorem compileListing_selfContained {room : Scope} {routine : Routine} {listing : Listing}
    (h : compileListing room routine = .ok listing) : SelfContained listing.instrs := by
  obtain ⟨hregion, hlast⟩ := compileListing_region h
  refine ⟨hlast, ?_, ?_⟩
  · intro index instr hinstr target htarget
    have hindex : index < listing.instrs.length := (List.getElem?_eq_some_iff.mp hinstr).1
    exact ((hregion index instr (Nat.zero_le index) hindex hinstr).lands target htarget).inside
  · intro V interp locals world n m hsteps
    have hpos : 0 < listing.instrs.length := by
      refine List.length_pos_iff.mpr ?_
      intro hnil
      rw [hnil] at hlast
      exact absurd hlast (by simp)
    exact hregion.steps hlast hpos rfl hsteps

/-- Neither putting code together nor encoding it fails for want of a place. -/
theorem compileBytes_avoids (room : Scope) (routine : Routine) :
    Avoids CompileError.IsDangling (compileBytes room routine) := by
  refine (compileListing_avoids room routine).bind fun listing hlisting => ?_
  exact encode_avoids routine.name (compileListing_selfContained hlisting).jumps

end RoomForge.Code
