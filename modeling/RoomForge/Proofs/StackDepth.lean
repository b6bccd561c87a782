import RoomForge.Proofs.Placement
import RoomForge.Proofs.Structure

set_option autoImplicit false

/-! # The depth of the stack

In front of every instruction of a function the stack has a known depth, whichever way the machine
came there. The depth is found by reading the code from its first instruction on, as if no jump were
taken. That this is right for jumps as well is because they leave and arrive at places where the
stack is empty.

`compiled_code_keeps_stack_discipline` is the result: no instruction finds too few values, and the
stack is empty at the end (specification, section 4.3, where statements drop values that are left).
-/

namespace RoomForge.Code

open RoomForge.Script

/-- The depth of the stack behind a row of instructions that is run in order. -/
def depthAfter {τ : Type} (depth : Nat) (code : List (Instr τ)) : Nat :=
  code.foldl (fun depth instr => depth - instr.pops + instr.pushes) depth

/-- The depth of the stack in front of the instruction at `index`. -/
def depthAt (code : List (Instr Nat)) (index : Nat) : Nat :=
  depthAfter 0 (code.take index)

/-- A place that jumps lead to. -/
structure Landing (code : List (Instr Nat)) (index : Nat) : Prop where
  inside : index < code.length
  empty : depthAt code index = 0

/-- An instruction in order: it finds its operands, it leaves behind it what its successors expect,
and the stack is empty where it ends the script or jumps to. -/
structure Orderly (code : List (Instr Nat)) (index : Nat) (instr : Instr Nat) : Prop where
  operands : instr.pops ≤ depthAt code index
  flow : ∀ next ∈ instr.successors index,
    depthAt code next = depthAt code index - instr.pops + instr.pushes
  ends : instr = .stop → depthAt code index = 0
  lands : ∀ target ∈ instr.target?, Landing code target

/-- The instructions from `start` up to `finish` are in order. -/
def Region (code : List (Instr Nat)) (start finish : Nat) : Prop :=
  ∀ index instr, start ≤ index → index < finish → code[index]? = some instr →
    Orderly code index instr

/-! ## Depths -/

@[simp] theorem depthAfter_nil {τ : Type} (depth : Nat) :
    depthAfter depth ([] : List (Instr τ)) = depth := rfl

@[simp] theorem depthAfter_cons {τ : Type} (depth : Nat) (instr : Instr τ) (rest : List (Instr τ)) :
    depthAfter depth (instr :: rest) = depthAfter (depth - instr.pops + instr.pushes) rest := rfl

@[simp] theorem depthAfter_append {τ : Type} (depth : Nat) (first second : List (Instr τ)) :
    depthAfter depth (first ++ second) = depthAfter (depthAfter depth first) second :=
  List.foldl_append

/-- Where jumps go is of no account. -/
theorem depthAfter_eq_of_map {τ : Type} (depth : Nat) (code : List (Instr τ)) :
    depthAfter depth code =
      (code.map fun instr => (instr.pops, instr.pushes)).foldl
        (fun depth effect => depth - effect.1 + effect.2) depth := by
  rw [depthAfter, List.foldl_map]

@[simp] theorem depthAfter_settle (depth : Nat) (code : Fragment) (places : Places) :
    depthAfter depth (code.settle places) = depthAfter depth code := by
  rw [depthAfter_eq_of_map, depthAfter_eq_of_map]
  congr 1
  apply List.ext_getElem?
  intro index
  simp only [Fragment.settle, List.getElem?_map, List.getElem?_mapIdx]
  cases code[index]? with
  | none => rfl
  | some instr => simp

theorem depthAt_succ {code : List (Instr Nat)} {index : Nat} {instr : Instr Nat}
    (h : code[index]? = some instr) :
    depthAt code (index + 1) = depthAt code index - instr.pops + instr.pushes := by
  rw [depthAt, List.take_add_one, h, depthAfter_append]
  rfl

theorem Values.depth_eq {count : Nat} {code : Fragment} (h : Values count code) (depth : Nat) :
    depthAfter depth code = depth + count := by
  induction h with
  | nil => rfl
  | snoc _ instr _ _ hpops ih =>
    rw [depthAfter_append, ih, depthAfter_cons, depthAfter_nil]
    omega

/-- Behind a test the stack is empty. -/
theorem depthAfter_loopTest {cond : Option Fragment} (h : ∀ test ∈ cond, Values 1 test)
    (behind : Nat) : depthAfter 0 (loopTest cond behind) = 0 := by
  cases cond with
  | none => rfl
  | some test =>
    rw [loopTest, depthAfter_append, (h test rfl).depth_eq]
    rfl

/-- Behind a loop the stack is empty if it is behind its parts. -/
theorem depthAfter_turnLoop {cond : Option Fragment} (h : ∀ test ∈ cond, Values 1 test)
    {body step : Fragment} (hbody : depthAfter 0 body = 0) (hstep : depthAfter 0 step = 0)
    (turn : Int) : depthAfter 0 (turnLoop cond body step turn) = 0 := by
  unfold turnLoop
  simp only [depthAfter_append, depthAfter_settle, depthAfter_loopTest h, hbody, hstep]
  rfl

/-- Behind a statement the stack is empty. -/
theorem Structured.depth_eq {inlined inLoop : Bool} {code : Fragment}
    (h : Structured inlined inLoop code) : depthAfter 0 code = 0 := by
  induction h with
  | straight hcode => exact hcode.depth_eq 0
  | append _ _ ihFirst ihSecond => rw [depthAfter_append, ihFirst, ihSecond]
  | @choice _ _ cond yes no hcond _ _ ihYes ihNo =>
    cases no with
    | none => simp [Code.choice, hcond.depth_eq, Instr.pops, Instr.pushes, ihYes]
    | some other =>
      simp [Code.choice, hcond.depth_eq, Instr.pops, Instr.pushes, ihYes, ihNo other rfl]
  | testLoop hcond _ ih =>
    rw [testLoop_eq_turnLoop]
    exact depthAfter_turnLoop (by simpa using hcond) ih rfl _
  | stepLoop hcond _ _ ihBody ihStep =>
    rw [stepLoop_eq_turnLoop]
    exact depthAfter_turnLoop hcond ihBody ihStep _
  | breakLoop | continueLoop | leaveBody | stop => rfl
  | body _ ih => rw [depthAfter_settle, ih]

/-- The depth behind a fragment that stands somewhere in the code. -/
theorem Placed.depthAt_end {code : List (Instr Nat)} {exits : Exits} {start : Nat}
    {fragment : Fragment} (h : Placed code exits start fragment) :
    depthAt code (start + fragment.length) = depthAfter (depthAt code start) fragment := by
  induction fragment generalizing start with
  | nil => rfl
  | cons instr rest ih =>
    obtain ⟨hinstr, hrest⟩ := cons_iff.mp h
    have hsucc := depthAt_succ hinstr
    rw [Instr.pops_mapTarget, Instr.pushes_mapTarget] at hsucc
    rw [depthAfter_cons, ← hsucc, ← ih hrest, List.length_cons]
    congr 1
    omega

/-! ## Instructions in order -/

section

variable {code : List (Instr Nat)} {index target : Nat} {instr : Instr Nat}

/-- An instruction that neither jumps nor ends the script. -/
theorem Orderly.of_straight (hinstr : code[index]? = some instr) (htarget : instr.target? = none)
    (hstop : instr ≠ .stop) (hpops : instr.pops ≤ depthAt code index) :
    Orderly code index instr where
  operands := hpops
  flow next hnext := by
    have hnext : next = index + 1 := by
      cases instr <;> simp_all [Instr.successors, Instr.target?]
    rw [hnext]
    exact depthAt_succ hinstr
  ends hends := absurd hends hstop
  lands target hlands := by
    rw [htarget] at hlands
    exact absurd hlands (by simp)

theorem Orderly.of_jump (hdepth : depthAt code index = 0) (htarget : Landing code target) :
    Orderly code index (.jump target) where
  operands := Nat.zero_le _
  flow next hnext := by
    obtain rfl := List.mem_singleton.mp hnext
    rw [hdepth, htarget.empty]
    rfl
  ends hends := absurd hends (by simp)
  lands other hother := Option.some.inj hother ▸ htarget

theorem Orderly.of_jumpIfFalse (hinstr : code[index]? = some (.jumpIfFalse target))
    (hdepth : depthAt code index = 1) (htarget : Landing code target) :
    Orderly code index (.jumpIfFalse target) where
  operands := Nat.le_of_eq hdepth.symm
  flow next hnext := by
    rcases List.mem_pair.mp hnext with rfl | rfl
    · exact depthAt_succ hinstr
    · rw [hdepth, htarget.empty]
      rfl
  ends hends := absurd hends (by simp)
  lands other hother := Option.some.inj hother ▸ htarget

theorem Orderly.of_stop (hdepth : depthAt code index = 0) : Orderly code index .stop where
  operands := Nat.zero_le _
  flow next hnext := absurd hnext List.not_mem_nil
  ends _ := hdepth
  lands target htarget := absurd htarget (by simp [Instr.target?])

end

namespace Region

variable {code : List (Instr Nat)} {start middle finish : Nat}

theorem append (hfirst : Region code start middle) (hsecond : Region code middle finish) :
    Region code start finish :=
  Throughout.append hfirst hsecond

theorem single {instr : Instr Nat} (hinstr : code[start]? = some instr)
    (h : Orderly code start instr) : Region code start (start + 1) :=
  Throughout.single hinstr h

end Region

/-! ## Emitted code in order -/

section

variable {code : List (Instr Nat)} {exits : Exits} {start : Nat}

theorem Values.region {count : Nat} {fragment : Fragment} (h : Values count fragment)
    (hplaced : Placed code exits start fragment) :
    Region code start (start + fragment.length) := by
  induction h with
  | nil => exact fun index instr hle hlt _ => absurd hlt (Nat.not_lt_of_le hle)
  | @snoc count front hfront instr htarget hstop hpops ih =>
    obtain ⟨hfrontPlaced, hlast⟩ := Placed.append_iff.mp hplaced
    have hinstr := (Placed.cons_iff.mp hlast).1
    have hdepth := hfrontPlaced.depthAt_end
    rw [hfront.depth_eq] at hdepth
    rw [List.length_append, ← Nat.add_assoc]
    refine (ih hfrontPlaced).append (.single hinstr (.of_straight hinstr ?_ ?_ ?_))
    · rw [Instr.target?_mapTarget, htarget]
      rfl
    · cases instr <;> simp_all [Instr.mapTarget]
    · rw [Instr.pops_mapTarget, hdepth]
      omega

/-- A test is in order if the place that it skips to is. -/
theorem loopTest_region {cond : Option Fragment} {behind : Nat}
    (hcond : ∀ test ∈ cond, Values 1 test)
    (hplaced : Placed code exits start (loopTest cond behind)) (hstart : depthAt code start = 0)
    (hskip : Landing code (start + (loopTest cond behind).length + behind)) :
    Region code start (start + (loopTest cond behind).length) := by
  cases cond with
  | none => exact Values.nil.region hplaced
  | some test =>
    obtain ⟨htest, hjump⟩ := hplaced.loopTest_some
    have hdepth := htest.depthAt_end
    rw [(hcond test rfl).depth_eq, hstart] at hdepth
    have hlength : start + (loopTest (some test) behind).length = start + test.length + 1 := by
      simp [loopTest, Nat.add_assoc]
    rw [hlength] at hskip ⊢
    exact ((hcond test rfl).region htest).append
      (.single hjump (.of_jumpIfFalse hjump hdepth hskip))

/-- Behind a statement, as in front of it, the stack is empty. -/
theorem Structured.depthAt_end {inlined inLoop : Bool} {fragment : Fragment}
    (h : Structured inlined inLoop fragment) (hplaced : Placed code exits start fragment)
    (hstart : depthAt code start = 0) : depthAt code (start + fragment.length) = 0 := by
  rw [hplaced.depthAt_end, hstart, h.depth_eq]

/-- A fragment is in order wherever it stands, if the places around it are. -/
def InOrder (code : List (Instr Nat)) (inlined inLoop : Bool) (fragment : Fragment) : Prop :=
  ∀ (exits : Exits) (start : Nat), Placed code exits start fragment → depthAt code start = 0 →
    start + fragment.length < code.length → (inlined = true → Landing code exits.bodyEnd) →
    (inLoop = true → Landing code exits.loopEnd ∧ Landing code exits.loopNext) →
    Region code start (start + fragment.length)

variable {inlined inLoop : Bool}

theorem InOrder.straight {fragment : Fragment} (h : Values 0 fragment) :
    InOrder code inlined inLoop fragment :=
  fun _ _ hplaced _ _ _ _ => h.region hplaced

theorem InOrder.append {first second : Fragment} (hfirst : Structured inlined inLoop first)
    (ihFirst : InOrder code inlined inLoop first) (ihSecond : InOrder code inlined inLoop second) :
    InOrder code inlined inLoop (first ++ second) := by
  intro exits start hplaced hstart hfinish hbody hloop
  obtain ⟨hfirstPlaced, hsecondPlaced⟩ := Placed.append_iff.mp hplaced
  rw [List.length_append, ← Nat.add_assoc] at hfinish ⊢
  have hmiddle := hfirst.depthAt_end hfirstPlaced hstart
  exact (ihFirst exits start hfirstPlaced hstart (by omega) hbody hloop).append
    (ihSecond exits _ hsecondPlaced hmiddle hfinish hbody hloop)

theorem InOrder.choice_none {cond yes : Fragment} (hcond : ∀ test ∈ some cond, Values 1 test)
    (hyes : Structured inlined inLoop yes) (ihYes : InOrder code inlined inLoop yes) :
    InOrder code inlined inLoop (choice cond yes none) := by
  intro exits start hplaced hstart hfinish hbody hloop
  obtain ⟨htestPlaced, hyesPlaced⟩ := hplaced.choice_none
  have hfirst := htestPlaced.depthAt_end
  rw [hstart, depthAfter_loopTest hcond] at hfirst
  rw [length_choice_none, ← Nat.add_assoc] at hfinish ⊢
  have hend : Landing code _ := ⟨hfinish, hyes.depthAt_end hyesPlaced hfirst⟩
  exact (loopTest_region hcond htestPlaced hstart hend).append
    (ihYes exits _ hyesPlaced hfirst hfinish hbody hloop)

theorem InOrder.choice_some {cond yes no : Fragment} (hcond : ∀ test ∈ some cond, Values 1 test)
    (hyes : Structured inlined inLoop yes) (hno : Structured inlined inLoop no)
    (ihYes : InOrder code inlined inLoop yes) (ihNo : InOrder code inlined inLoop no) :
    InOrder code inlined inLoop (choice cond yes (some no)) := by
  intro exits start hplaced hstart hfinish hbody hloop
  obtain ⟨first, hfirstEq⟩ : ∃ first,
      first = start + (loopTest (some cond) (yes.length + 1)).length := ⟨_, rfl⟩
  obtain ⟨htestPlaced, hyesPlaced, hjump, hnoPlaced⟩ := hplaced.choice_some hfirstEq rfl
  have hfirst := htestPlaced.depthAt_end
  rw [hstart, depthAfter_loopTest hcond, ← hfirstEq] at hfirst
  have hlast := hyes.depthAt_end hyesPlaced hfirst
  have hother : depthAt code (first + yes.length + 1) = 0 := by
    rw [depthAt_succ hjump, hlast]
    rfl
  have hlength : start + (choice cond yes (some no)).length =
      first + yes.length + 1 + no.length := by
    rw [length_choice_some, hfirstEq]
    omega
  rw [hlength] at hfinish ⊢
  have hend : Landing code (first + yes.length + 1 + no.length) :=
    ⟨hfinish, hno.depthAt_end hnoPlaced hother⟩
  have hskip : Landing code (first + yes.length + 1) := ⟨by omega, hother⟩
  rw [hfirstEq] at hskip
  have htest := loopTest_region hcond htestPlaced hstart hskip
  rw [← hfirstEq] at htest
  have hyesRegion := ihYes exits first hyesPlaced hfirst (by omega) hbody hloop
  have hjumpRegion := Region.single hjump (.of_jump hlast hend)
  have hnoRegion := ihNo exits _ hnoPlaced hother hfinish hbody hloop
  exact ((htest.append hyesRegion).append hjumpRegion).append hnoRegion

/-- A loop is in order if its turns go on where the stack is empty: in front of it or behind its
body. -/
theorem InOrder.turnLoop {cond : Option Fragment} {body step : Fragment} {turn : Int} {behind : Nat}
    (hbehind : behind = body.length + step.length + 1) (hcond : ∀ test ∈ cond, Values 1 test)
    (hinner : Structured inlined true body) (hstep : Structured inlined inLoop step)
    (ihBody : InOrder code inlined true body) (ihStep : InOrder code inlined inLoop step)
    (hturn : turn = body.length ∨ turn = -((loopTest cond behind).length : Int)) :
    InOrder code inlined inLoop (turnLoop cond body step turn) := by
  intro exits start hplaced hstart hfinish hbody hloop
  obtain ⟨first, hfirstEq⟩ : ∃ first, first = start + (loopTest cond behind).length := ⟨_, rfl⟩
  obtain ⟨turnAt, hturnAt, hwhere⟩ : ∃ turnAt : Nat, (first : Int) + turn = turnAt ∧
      (turnAt = first + body.length ∨ turnAt = start) := by
    rcases hturn with rfl | rfl
    · exact ⟨first + body.length, rfl, .inl rfl⟩
    · exact ⟨start, by omega, .inr rfl⟩
  obtain ⟨htestPlaced, hbodyPlaced, hstepPlaced, hback⟩ :=
    hplaced.turnLoop hbehind hfirstEq rfl hturnAt
  have hfirst := htestPlaced.depthAt_end
  rw [hstart, depthAfter_loopTest hcond, ← hfirstEq] at hfirst
  have hturned := hinner.depthAt_end hbodyPlaced hfirst
  have hlast := hstep.depthAt_end hstepPlaced hturned
  have hempty : depthAt code (first + body.length + step.length + 1) = 0 := by
    rw [depthAt_succ hback, hlast]
    rfl
  have hlength : start + (Code.turnLoop cond body step turn).length =
      first + body.length + step.length + 1 := by
    rw [length_turnLoop, ← hbehind, hfirstEq]
    omega
  rw [hlength] at hfinish ⊢
  have hend : Landing code (first + body.length + step.length + 1) := ⟨hfinish, hempty⟩
  have hhead : Landing code start := ⟨by omega, hstart⟩
  have hlanding : Landing code turnAt := by
    rcases hwhere with rfl | rfl
    · exact ⟨by omega, hturned⟩
    · exact hhead
  -- The test skips what lies behind it, up to the end of the loop.
  have hskip : Landing code (start + (loopTest cond behind).length + behind) := by
    rw [← hfirstEq, hbehind, ← Nat.add_assoc, ← Nat.add_assoc]
    exact hend
  have htest := loopTest_region hcond htestPlaced hstart hskip
  rw [← hfirstEq] at htest
  have hbodyRegion := ihBody _ first hbodyPlaced hfirst (by omega) hbody
    (fun _ => ⟨hend, hlanding⟩)
  have hstepRegion := ihStep exits _ hstepPlaced hturned (by omega) hbody hloop
  have hbackRegion := Region.single hback (.of_jump hlast hhead)
  exact ((htest.append hbodyRegion).append hstepRegion).append hbackRegion

/-- The code of a statement is in order. -/
theorem Structured.inOrder {fragment : Fragment} (h : Structured inlined inLoop fragment) :
    InOrder code inlined inLoop fragment := by
  induction h with
  | straight hcode => exact .straight hcode
  | append hfirst _ ihFirst ihSecond => exact .append hfirst ihFirst ihSecond
  | @choice _ _ cond yes no hcond hyes hno ihYes ihNo =>
    have htests : ∀ test ∈ some cond, Values 1 test := by simpa using hcond
    cases no with
    | none => exact .choice_none htests hyes ihYes
    | some other => exact .choice_some htests hyes (hno other rfl) ihYes (ihNo other rfl)
  | testLoop hcond hbody ih =>
    rw [testLoop_eq_turnLoop]
    exact .turnLoop rfl (by simpa using hcond) hbody (.straight .nil) ih (.straight .nil) (.inr rfl)
  | stepLoop hcond hbody hstep ihBody ihStep =>
    rw [stepLoop_eq_turnLoop]
    exact .turnLoop rfl hcond hbody hstep ihBody ihStep (.inl rfl)
  | breakLoop =>
    intro exits start hplaced hstart _ _ hloop
    exact .single (Placed.cons_iff.mp hplaced).1 (.of_jump hstart (hloop rfl).1)
  | continueLoop =>
    intro exits start hplaced hstart _ _ hloop
    exact .single (Placed.cons_iff.mp hplaced).1 (.of_jump hstart (hloop rfl).2)
  | leaveBody =>
    intro exits start hplaced hstart _ hbody _
    exact .single (Placed.cons_iff.mp hplaced).1 (.of_jump hstart (hbody rfl))
  | stop =>
    intro exits start hplaced hstart _ _ _
    exact .single (Placed.cons_iff.mp hplaced).1 (.of_stop hstart)
  | @body _ _ inner hinner ih =>
    intro exits start hplaced hstart hfinish _ _
    have hinnerPlaced := hplaced.body
    rw [Fragment.length_settle] at hfinish ⊢
    -- The roles around the call do not matter, as the body has none of them left open.
    have hend : Landing code (start + inner.length) :=
      ⟨hfinish, hinner.depthAt_end hinnerPlaced hstart⟩
    exact ih _ start hinnerPlaced hstart hfinish (fun _ => hend)
      (fun hfalse => absurd hfalse (by simp))

end

/-- The code of a function is in order from its first instruction to its last, which ends the
script. -/
theorem compileListing_region {room : Scope} {routine : Routine} {listing : Listing}
    (h : compileListing room routine = .ok listing) :
    Region listing.instrs 0 listing.instrs.length ∧ listing.instrs.getLast? = some .stop := by
  obtain ⟨body, hbody, hlink, _⟩ := compileListing_ok h
  have hstructured := compileBody_structured hbody
  obtain ⟨hplaced, hend⟩ := Placed.append_iff.mp (placed_of_link? default hlink)
  have hstop : listing.instrs[0 + body.code.length]? = some .stop := (Placed.cons_iff.mp hend).1
  have hlength : listing.instrs.length = 0 + body.code.length + 1 := by
    rw [length_link? hlink, List.length_append, Nat.zero_add]
    rfl
  have hfinish : 0 + body.code.length < listing.instrs.length := by omega
  have hbodyRegion := hstructured.inOrder default 0 hplaced rfl hfinish
    (fun hfalse => absurd hfalse (by simp)) (fun hfalse => absurd hfalse (by simp))
  have hempty := hstructured.depthAt_end hplaced rfl
  constructor
  · rw [hlength]
    exact hbodyRegion.append (.single hstop (.of_stop hempty))
  · rw [List.getLast?_eq_getElem?, hlength]
    exact hstop

/-! ## Discipline -/

/-- Every instruction of the code has one depth of the stack in front of it. -/
structure StackDiscipline (code : List (Instr Nat)) (depth : Nat → Nat) : Prop where
  starts : depth 0 = 0
  /-- An instruction finds the operands that it takes. -/
  operands : ∀ (index : Nat) (instr : Instr Nat), code[index]? = some instr →
    instr.pops ≤ depth index
  /-- What it leaves is what all of its successors expect. -/
  flow : ∀ (index : Nat) (instr : Instr Nat), code[index]? = some instr →
    ∀ next ∈ instr.successors index, depth next = depth index - instr.pops + instr.pushes
  /-- Nothing is left over at the end of the script. -/
  ends : ∀ index : Nat, code[index]? = some .stop → depth index = 0
  /-- Nothing is on the stack where jumps lead to. -/
  lands : ∀ (index : Nat) (instr : Instr Nat), code[index]? = some instr →
    ∀ target ∈ instr.target?, depth target = 0

theorem Region.discipline {code : List (Instr Nat)} (h : Region code 0 code.length) :
    StackDiscipline code (depthAt code) := by
  have horderly : ∀ index instr, code[index]? = some instr → Orderly code index instr := by
    intro index instr hinstr
    exact h index instr (Nat.zero_le index) (List.getElem?_eq_some_iff.mp hinstr).1 hinstr
  constructor
  · rfl
  · exact fun index instr hinstr => (horderly index instr hinstr).operands
  · exact fun index instr hinstr => (horderly index instr hinstr).flow
  · exact fun index hstop => (horderly index .stop hstop).ends rfl
  · exact fun index instr hinstr target htarget =>
      ((horderly index instr hinstr).lands target htarget).empty

section

variable {V : Type} {interp : Interpretation V} {code : List (Instr Nat)} {depth : Nat → Nat}

/-- A step keeps the stack as deep as the discipline has it. -/
theorem StackDiscipline.step (h : StackDiscipline code depth) {m next : Machine V}
    (hdepth : m.stack.length = depth m.pc) (hstep : m.step interp code = some next) :
    next.stack.length = depth next.pc := by
  obtain ⟨instr, hinstr, hperform⟩ := Option.bind_eq_some_iff.mp hstep
  obtain ⟨hlength, hnext⟩ := Machine.perform_spec hperform
  rw [hlength, hdepth, h.flow m.pc instr hinstr next.pc hnext]

theorem StackDiscipline.steps (h : StackDiscipline code depth) {n : Nat} {m last : Machine V}
    (hdepth : m.stack.length = depth m.pc) (hsteps : m.steps interp code n = some last) :
    last.stack.length = depth last.pc := by
  induction n generalizing m with
  | zero =>
    obtain rfl := Option.some.inj hsteps
    exact hdepth
  | succ n ih =>
    obtain ⟨next, hnext, hrest⟩ := Option.bind_eq_some_iff.mp hsteps
    exact ih (h.step hdepth hnext) hrest

end

/-- Every function that compiles keeps a stack discipline, and whatever the values mean, a run of
its code has the stack at the depth that the discipline gives. -/
theorem compiled_code_keeps_stack_discipline (room : Scope) (routine : Routine) (listing : Listing)
    (h : compileListing room routine = .ok listing) :
    ∃ depth : Nat → Nat, StackDiscipline listing.instrs depth ∧
      ∀ (V : Type) (interp : Interpretation V) (locals : UInt8 → V) (world : World V) (n : Nat)
        (m : Machine V), (Machine.start locals world).steps interp listing.instrs n = some m →
        m.stack.length = depth m.pc := by
  have hdiscipline := (compileListing_region h).1.discipline
  refine ⟨depthAt listing.instrs, hdiscipline, ?_⟩
  intro V interp locals world n m hsteps
  exact hdiscipline.steps rfl hsteps

/-- A function that drops a value, keeps one, and goes on behind its `return`. -/
def rollDice : Routine where
  name := "rollDice"
  kind := .normal
  body := .block 1 [
    .eval 2 (.call "random" [.int 6]),
    .whileLoop 3 (.binary .lt (.ident "result") (.int 3)) (.block 3 [
      .assign 4 "result" (.binary .add (.call "random" [.int 6]) (.int 1)),
      .ifElse 5 (.ident "result") (.breakLoop 5) (some (.leave 6)),
      .eval 7 (.call "print" [.str "unseen"])])]
  line := 1

theorem rollDice_keeps_stack_discipline :
    ∃ listing, compileListing (.ofRoom [] []) rollDice = .ok listing ∧
      ∃ depth, StackDiscipline listing.instrs depth := by
  obtain ⟨listing, hlisting⟩ : ∃ listing,
      compileListing (.ofRoom [] []) rollDice = .ok listing :=
    exists_ok_of_isOk (by decide +kernel)
  obtain ⟨depth, hdepth, _⟩ := compiled_code_keeps_stack_discipline _ rollDice listing hlisting
  exact ⟨listing, hlisting, depth, hdepth⟩

end RoomForge.Code
