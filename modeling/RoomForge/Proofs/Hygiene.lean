import RoomForge.Proofs.Agreement
import RoomForge.Proofs.Relocation

set_option autoImplicit false

/-! # Expansions keep to themselves

Where an inlined function is called, its code is written behind what has been written of the
function around the call (specification, section 4.3, inlined functions). It jumps to nothing else
and uses no slot that was taken before, and the jumps that wait around the call stay as they are.
Two expansions of one function are the same code, counted from the places where they start:
`expansions_are_hygienic_and_relocatable`.
-/

namespace RoomForge.Code

open RoomForge.Script

/-! ## Closed code -/

/-- Code without open roles jumps to its own instructions, or to its end. -/
theorem Structured.target_within {code : Fragment} (h : Structured false false code) {index : Nat}
    {instr : Instr Target} (hinstr : code[index]? = some instr) {target : Target}
    (htarget : target ∈ instr.target?) :
    ∃ place : Nat, place ≤ code.length ∧ target = .apart ((place : Int) - index) := by
  have hclosed : ClosedAt false false 0 code := h.closedAt
  have hwithin := hclosed index instr hinstr target htarget
  -- With an end of the script behind it the code can be finished, and its jumps lead inside.
  obtain ⟨finished, hfinished⟩ := exists_link? (Structured.append h .stop).closedAt
  obtain ⟨hplaced, _⟩ := Placed.append_iff.mp (placed_of_link? default hfinished)
  have hlength : finished.length = code.length + 1 := by
    rw [length_link? hfinished, List.length_append, List.length_singleton]
  have hregion : Region finished 0 (0 + code.length) :=
    h.inOrder default 0 hplaced rfl (by omega) (by simp) (by simp)
  have hindex : index < code.length := (List.getElem?_eq_some_iff.mp hinstr).1
  have horderly := hregion (0 + index) _ (Nat.zero_le _) (by omega) (hplaced index instr hinstr)
  have hlands := (horderly.lands (target.place default (0 + index))
    (by simpa using ⟨target, htarget, rfl⟩)).inside
  cases target with
  | loopEnd | loopNext | bodyEnd => exact absurd hwithin (by simp [Target.Within])
  | apart distance =>
    simp only [Target.Within, Target.place] at hwithin hlands
    refine ⟨((0 + index : Nat) + distance : Int).toNat, by omega, ?_⟩
    congr 1
    omega

theorem openJumps_eq_nil {role : Target} {code : Fragment}
    (h : ∀ instr ∈ code, instr.target? ≠ some role) (start : Nat) :
    openJumps role start code = [] := by
  induction code generalizing start with
  | nil => rfl
  | cons instr rest ih =>
    rw [List.forall_mem_cons] at h
    rw [openJumps, if_neg h.1]
    exact ih h.2 (start + 1)

/-- Code without open roles leaves no jump waiting. -/
theorem Structured.openJumps_eq_nil {code : Fragment} (h : Structured false false code)
    {role : Target} (hrole : ∀ distance, role ≠ .apart distance) (start : Nat) :
    openJumps role start code = [] := by
  refine Code.openJumps_eq_nil (fun instr hmem htarget => ?_) start
  obtain ⟨index, hinstr⟩ := List.mem_iff_getElem?.mp hmem
  obtain ⟨place, _, heq⟩ := h.target_within hinstr htarget
  exact hrole _ heq

/-! ## Code that keeps to itself -/

/-- What was written between two drafts keeps to itself. -/
structure Hygienic (before after : Draft) : Prop where
  /-- What was written before stands as it was. -/
  kept : before.instrs <+: after.instrs
  /-- Jumps lead to what was written since, or to its end. -/
  jumps : ∀ index instr, before.here ≤ index → after.instrs[index]? = some instr →
    ∀ target ∈ instr.target?, before.here ≤ target ∧ target ≤ after.here
  /-- Variables have slots that were taken since. -/
  slots : ∀ index instr, before.here ≤ index → after.instrs[index]? = some instr →
    ∀ slot ∈ instr.slot?, before.next ≤ slot.toNat ∧ slot.toNat < after.next
  line_eq : after.line = before.line
  loops_eq : after.loops = before.loops
  bodies_eq : after.bodies = before.bodies

/-- An instruction of code that starts at `start`, in a frame that is free from the slot `next` on,
as if both were the first. -/
def Instr.rebase (start next : Nat) : Instr Nat → Instr Nat
  | .jump target => .jump (target - start)
  | .jumpIfFalse target => .jumpIfFalse (target - start)
  | .loadLocal slot => .loadLocal (UInt8.ofNat (slot.toNat - next))
  | .storeLocal slot => .storeLocal (UInt8.ofNat (slot.toNat - next))
  | instr => instr

/-- What was written between two drafts, as if it were the first code of a function. -/
def Draft.since (before after : Draft) : List (Instr Nat) :=
  (after.instrs.drop before.here).map (Instr.rebase before.here before.next)

/-- The instructions of code that is written behind a draft. -/
theorem Draft.getElem?_extend {draft : Draft} {code : Fragment} {behind index : Nat}
    (hindex : draft.here ≤ index) {instr : Instr Nat}
    (h : (draft.extend code behind).instrs[index]? = some instr) :
    ∃ offset source, index = draft.here + offset ∧ code[offset]? = some source ∧
      instr = source.mapTarget (Target.place holes index) := by
  obtain ⟨offset, rfl⟩ := Nat.exists_eq_add_of_le hindex
  rw [extend, List.getElem?_append_right hindex, here, Nat.add_sub_cancel_left, getElem?_lay] at h
  obtain ⟨source, hsource, rfl⟩ := Option.map_eq_some_iff.mp h
  exact ⟨offset, source, rfl, hsource, rfl⟩

section

variable {draft draft' : Draft} {code code' : Fragment} {behind behind' : Nat}

/-- Code without open roles that uses the slots taken for it keeps to itself. -/
theorem Hygienic.extend (hcode : Structured false false code)
    (hslots : PiecesMoved draft.next draft.next 0 (code, behind) (code, behind)) :
    Hygienic draft (draft.extend code behind) := by
  have hopen : ∀ role : Target, (∀ distance, role ≠ .apart distance) →
      openJumps role draft.here code = [] :=
    fun role hrole => hcode.openJumps_eq_nil hrole draft.here
  refine ⟨List.prefix_append _ _, ?_, ?_, rfl, ?_, ?_⟩
  · intro index instr hindex hinstr target htarget
    obtain ⟨offset, source, rfl, hsource, rfl⟩ := Draft.getElem?_extend hindex hinstr
    rw [Instr.target?_mapTarget] at htarget
    obtain ⟨role, hrole, rfl⟩ := Option.map_eq_some_iff.mp htarget
    obtain ⟨place, hplace, rfl⟩ := hcode.target_within hsource hrole
    rw [Draft.here_extend]
    simp only [Target.place]
    omega
  · intro index instr hindex hinstr slot hslot
    obtain ⟨offset, source, rfl, hsource, rfl⟩ := Draft.getElem?_extend hindex hinstr
    rw [Instr.slot?_mapTarget] at hslot
    -- The code is related to itself, which bounds its slots by what is taken behind it.
    obtain ⟨more, _, rfl, _, hmoved⟩ := hslots
    have hrel := rel_getElem? hmoved offset
    rw [hsource] at hrel
    cases hrel with
    | some hinstr =>
      obtain ⟨distance, hdistance, heq, _⟩ := hinstr.slots hslot
      exact ⟨by omega, by simp only [Draft.extend]; omega⟩
  · simp only [Draft.extend, hopen .loopEnd (by simp), hopen .loopNext (by simp), List.append_nil]
    cases draft.loops <;> rfl
  · simp only [Draft.extend, hopen .bodyEnd (by simp), List.append_nil]
    cases draft.bodies <;> rfl

/-- Instructions that differ in slots alone are the same, counted from their bases. -/
theorem Instr.Moved.rebase_eq {start start' next next' taken index : Nat}
    {first second : Instr Target} (h : Instr.Moved next next' taken first second)
    (htargets : ∀ target ∈ first.target?, ∃ place : Nat, target = .apart ((place : Int) - index)) :
    (first.mapTarget (Target.place holes (start + index))).rebase start next =
      (second.mapTarget (Target.place holes (start' + index))).rebase start' next' := by
  cases h with
  | load h | store h =>
    obtain ⟨offset, _, hslot, hslot'⟩ := h
    simp only [Instr.mapTarget, Instr.rebase, hslot, hslot', Nat.add_sub_cancel_left]
  | same _ hslot =>
    cases first with
    | jump target | jumpIfFalse target =>
      obtain ⟨place, rfl⟩ := htargets target rfl
      simp only [Instr.mapTarget, Instr.rebase, Target.place]
      congr 1
      omega
    | loadLocal slot | storeLocal slot => exact absurd hslot (by simp [Instr.slot?])
    | _ => rfl

/-- Code that differs in slots alone is the same, counted from where it starts. -/
theorem Draft.since_eq (hcode : Structured false false code)
    (hmoved : PiecesMoved draft.next draft'.next 0 (code, behind) (code', behind')) :
    draft.since (draft.extend code behind) = draft'.since (draft'.extend code' behind') := by
  obtain ⟨more, _, _, _, hmoved⟩ := hmoved
  apply List.ext_getElem?
  intro index
  have hrel := rel_getElem? hmoved index
  simp only [since, extend, here, List.drop_left, List.getElem?_map, getElem?_lay]
  cases hsource : code[index]? with
  | none =>
    rw [hsource] at hrel
    generalize code'[index]? = other at hrel
    cases hrel with
    | none => rfl
  | some source =>
    rw [hsource] at hrel
    generalize code'[index]? = other at hrel
    cases hrel with
    | some hinstr =>
      refine congrArg some (hinstr.rebase_eq fun target htarget => ?_)
      obtain ⟨place, _, heq⟩ := hcode.target_within hsource htarget
      exact ⟨place, heq⟩

end

/-! ## Calls -/

/-- Two expansions of a function of a room differ in nothing but slots. -/
theorem expandCall_ofRoom_moved (constants : List Constant) (routines : List Routine)
    {function function' : String} {depth depth' next next' : Nat} {calls calls' : List String}
    {routine : Routine} {piece piece' : Fragment × Nat}
    (h : expandCall function (.ofRoom constants routines) depth calls routine next = .ok piece)
    (h' : expandCall function' (.ofRoom constants routines) depth' calls' routine next' =
      .ok piece') : PiecesMoved next next' 0 piece piece' := by
  refine expandCall_moved ?_ function function' depth depth' calls calls' routine next next' piece
    piece' h h'
  exact List.forall_mem_singleton.mpr rfl

/-- A call in the code of some function, and what has been written in front of it. -/
structure CallSite where
  /-- The function that is being compiled. -/
  function : String
  /-- How many more calls can be expanded inside of each other. -/
  depth : Nat
  /-- The names around the call. -/
  scope : Scope
  /-- The name by which a function is called. -/
  name : String
  draft : Draft

namespace CallSite

/-- Compiles the call. -/
def compile (site : CallSite) (room : Scope) : Except CompileError ExprCode :=
  let setting : Setting := ⟨site.function, !site.draft.names.isEmpty,
    expandCall site.function room site.depth site.draft.names⟩
  compileExpr setting site.scope site.draft.line (.call site.name []) site.draft.next

/-- Writes the call behind the draft. -/
def write (site : CallSite) (room : Scope) : Except Mishap (Bool × Draft) :=
  writeExpr ⟨site.function, writeBody site.function room site.depth⟩ site.scope
    (.call site.name []) site.draft

theorem write_eq (site : CallSite) (room : Scope) :
    site.write room = lift (fun compiled => (compiled.value,
      site.draft.extend compiled.code compiled.next)) (site.compile room) :=
  exprWrites (writeBody_matches site.function room site.depth site.draft.names) _ site.scope
    site.draft rfl

/-- A call of an inlined function that is compiled is expanded, and leaves no value. -/
theorem compile_ok {site : CallSite} {room : Scope} {callee : Routine} {compiled : ExprCode}
    (hname : site.scope.resolve? site.name = some (.routine callee))
    (hinlined : callee.isInlined = true) (h : site.compile room = .ok compiled) :
    compiled.value = false ∧
      expandCall site.function room site.depth site.draft.names callee site.draft.next =
        .ok (compiled.code, compiled.next) := by
  rcases compileExpr_call_ok h with ⟨builtin, _, hother, _⟩ | ⟨routine, hroutine, hcall⟩
  · exact absurd (hname.symm.trans hother) (by simp)
  · obtain rfl := Meaning.routine.inj (Option.some.inj (hname.symm.trans hroutine))
    obtain ⟨_, hvalue, ⟨_, hexpand⟩ | ⟨hnot, _⟩⟩ := callRoutine_ok hcall
    · exact ⟨hvalue, hexpand⟩
    · exact absurd (hinlined.symm.trans hnot) (by simp)

end CallSite

/-- The calls of an inlined function of a room that can be compiled, in whichever functions and
wherever they stand, are all written as code that keeps to itself. It is the same code for all of
them, counted from where it starts and from the first slot that is free there. -/
theorem expansions_are_hygienic_and_relocatable (constants : List Constant)
    (routines : List Routine) (callee : Routine) (hinlined : callee.isInlined = true)
    (first second : CallSite)
    (hfirst : first.scope.resolve? first.name = some (.routine callee))
    (hsecond : second.scope.resolve? second.name = some (.routine callee)) (code code' : ExprCode)
    (hcode : first.compile (.ofRoom constants routines) = .ok code)
    (hcode' : second.compile (.ofRoom constants routines) = .ok code') :
    ∃ written written',
      written = first.draft.extend code.code code.next ∧
      written' = second.draft.extend code'.code code'.next ∧
      first.write (.ofRoom constants routines) = .ok (false, written) ∧
      second.write (.ofRoom constants routines) = .ok (false, written') ∧
      Hygienic first.draft written ∧ Hygienic second.draft written' ∧
      first.draft.since written = second.draft.since written' ∧
      written.next - first.draft.next = written'.next - second.draft.next := by
  obtain ⟨hvalue, hexpand⟩ := CallSite.compile_ok hfirst hinlined hcode
  obtain ⟨hvalue', hexpand'⟩ := CallSite.compile_ok hsecond hinlined hcode'
  have hmoved := expandCall_ofRoom_moved constants routines hexpand hexpand'
  have hclosed := expandCall_structured first.function (.ofRoom constants routines) first.depth
    first.draft.names false callee _ _ _ hexpand false false
  have hclosed' := expandCall_structured second.function (.ofRoom constants routines) second.depth
    second.draft.names false callee _ _ _ hexpand' false false
  refine ⟨_, _, rfl, rfl, ?_, ?_, ?_, ?_, Draft.since_eq hclosed hmoved, ?_⟩
  · rw [CallSite.write_eq, hcode, lift, hvalue]
  · rw [CallSite.write_eq, hcode', lift, hvalue']
  · exact .extend hclosed (expandCall_ofRoom_moved constants routines hexpand hexpand)
  · exact .extend hclosed' (expandCall_ofRoom_moved constants routines hexpand' hexpand')
  · obtain ⟨taken, _, hnext, hnext', _⟩ := hmoved
    simp only [Draft.extend]
    omega

/-- An inlined function with a variable, a loop that can be left, a call in it and a way out. -/
def countDown : Routine where
  name := "countDown"
  kind := .inlined
  body := .block 1 [.var 1 "count" (some (.int 3)),
    .whileLoop 2 (.ident "count") (.block 2 [
      .assign 3 "count" (.binary .sub (.ident "count") (.int 1)),
      .ifElse 4 (.ident "timer") (.breakLoop 4) (some (.eval 5 (.call "peek" [])))]),
    .ifElse 6 (.ident "count") (.leave 6) none,
    .eval 7 (.call "print" [.str "go"])]
  line := 1

/-- The first thing in a function. -/
def launch : CallSite where
  function := "launch"
  depth := 3
  scope := (Scope.ofRoom [] [countDown, peek]).push .function
  name := "countDown"
  draft := { line := 9 }

/-- In a loop that uses a variable of the same name, inside of another inlined function. -/
def relaunch : CallSite where
  function := "retry"
  depth := 2
  scope := (((Scope.ofRoom [] [countDown, peek]).push .function).declareLocal "count" 4).push .loop
  name := "countDown"
  draft :=
    { instrs := [.pushWord 5, .storeLocal 4, .loadLocal 4, .jumpIfFalse unpatched, .jump unpatched]
      next := 5
      line := 12
      loops := [{ breaks := [4] }]
      bodies := [{ name := "relaunch" }] }

theorem launches_are_hygienic_and_relocatable :
    ∃ written written',
      launch.write (.ofRoom [] [countDown, peek]) = .ok (false, written) ∧
      relaunch.write (.ofRoom [] [countDown, peek]) = .ok (false, written') ∧
      Hygienic launch.draft written ∧ Hygienic relaunch.draft written' ∧
      launch.draft.since written = relaunch.draft.since written' := by
  obtain ⟨code, hcode⟩ : ∃ code, launch.compile (.ofRoom [] [countDown, peek]) = .ok code :=
    exists_ok_of_isOk (by decide +kernel)
  obtain ⟨code', hcode'⟩ : ∃ code, relaunch.compile (.ofRoom [] [countDown, peek]) = .ok code :=
    exists_ok_of_isOk (by decide +kernel)
  obtain ⟨written, written', _, _, hwritten, hwritten', hygienic, hygienic', hsince, _⟩ :=
    expansions_are_hygienic_and_relocatable [] [countDown, peek] countDown rfl launch relaunch
      rfl rfl code code' hcode hcode'
  exact ⟨written, written', hwritten, hwritten', hygienic, hygienic', hsince⟩

end RoomForge.Code
