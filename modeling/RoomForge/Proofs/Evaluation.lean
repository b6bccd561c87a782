import RoomForge.Proofs.Emission
import RoomForge.Proofs.Following
import RoomForge.Proofs.Naming
import RoomForge.Proofs.Placement

set_option autoImplicit false

/-! # Code of expressions

The machine on the code of an expression follows the evaluation of the expression, wherever the code
stands: `exprFollows`, by induction on the expression. The names of the expression are linked and
its variables have paired cells and slots. Both operands of `&&` and `||` are evaluated
(specification, section 4.3). What calls of inlined functions do is a hypothesis here; it is
discharged in `Proofs.Meaning`, where functions are compared.
-/

namespace RoomForge.Code

open RoomForge.Script

variable {V : Type}

/-- The machine and the state of the run agree on the world and on the variables. -/
structure Agrees (pairs : Pairing) (state : State V) (m : Machine V) : Prop where
  world : m.world = state.world
  kept : Kept pairs state.cells m.locals

namespace Agrees

variable {pairs more : Pairing} {state : State V} {m : Machine V}

/-- Variables may be forgotten. -/
theorem forget (h : Agrees more state m) (hsub : pairs ⊆ more) : Agrees pairs state m :=
  ⟨h.world, fun pair hpair => h.kept pair (hsub hpair)⟩

/-- Only the world and the slots matter. -/
theorem of_eq {other : Machine V} (h : Agrees pairs state m) (hworld : other.world = m.world)
    (hlocals : other.locals = m.locals) : Agrees pairs state other :=
  ⟨hworld.trans h.world, by rw [hlocals]; exact h.kept⟩

theorem record (h : Agrees pairs state m) (interp : Interpretation V) (event : Event V)
    {other : Machine V} (hworld : other.world = m.world.record interp event)
    (hlocals : other.locals = m.locals) : Agrees pairs (state.record interp event) other := by
  refine ⟨?_, by rw [hlocals]; exact h.kept⟩
  rw [hworld, h.world]
  rfl

end Agrees

/-! ## Expressions -/

section

variable (interp : Interpretation V) (code : List (Instr Nat)) (fuel : Nat) (setting : Setting)
  (calls : Calls V)

/-- The code of an inlined function does what calling it means. -/
def CallsFollow : Prop :=
  ∀ (routine : Routine) (next : Nat) (fragment : Fragment) (behind : Nat),
    setting.expand routine next = .ok (fragment, behind) →
    ∀ (exits : Exits) (pairs : Pairing) (state : State V) (m : Machine V), pairs.Sound next →
      Placed code exits m.pc fragment → Agrees pairs state m →
      Follows interp code fuel m (calls routine state) fun after last =>
        last.pc = m.pc + fragment.length ∧ last.stack = m.stack ∧ Agrees pairs after last

/-- The code of an expression leaves its value, if it has one. -/
def ExprFollows (expr : Expr) : Prop :=
  ∀ (scope : Scope) (env : Env) (line next : Nat) (compiled : ExprCode),
    compileExpr setting scope line expr next = .ok compiled →
    ∀ (exits : Exits) (pairs : Pairing) (state : State V) (m : Machine V),
      env.Linked pairs scope → pairs.Sound next → Placed code exits m.pc compiled.code →
      Agrees pairs state m →
      Follows interp code fuel m (evalExpr interp calls env expr state) fun result last =>
        last.pc = m.pc + compiled.code.length ∧ last.stack = result.1.toList ++ m.stack ∧
          result.1.isSome = compiled.value ∧ Agrees pairs result.2 last

end

variable {interp : Interpretation V} {code : List (Instr Nat)} {fuel : Nat} {setting : Setting}
  {calls : Calls V} {scope : Scope} {env : Env} {line next : Nat} {exits : Exits} {pairs : Pairing}
  {state : State V} {m : Machine V}

/-- The code of an operand leaves its value. -/
theorem ExprFollows.value {expr : Expr} (h : ExprFollows interp code fuel setting calls expr)
    {fragment : Fragment} {behind : Nat}
    (hvalue : compileValue setting scope line expr next = .ok (fragment, behind))
    (hlinked : env.Linked pairs scope) (hsound : pairs.Sound next)
    (hplaced : Placed code exits m.pc fragment) (hagrees : Agrees pairs state m) :
    Follows interp code fuel m (evalValue interp calls env expr state) fun result last =>
      last.pc = m.pc + fragment.length ∧ last.stack = result.1 :: m.stack ∧
        Agrees pairs result.2 last := by
  obtain ⟨compiled, hcompiled, hleaves, rfl, rfl⟩ := compileValue_eq_ok_iff.mp hvalue
  refine (h scope env line next compiled hcompiled exits pairs state m hlinked hsound hplaced
    hagrees).bind ?_
  rintro ⟨value, after⟩ last ⟨hpc, hstack, hsome, hafter⟩
  rw [hleaves] at hsome
  obtain ⟨value, rfl⟩ := Option.isSome_iff_exists.mp hsome
  exact .ok ⟨hpc, hstack, hafter⟩

/-- One instruction that pushes the value of an expression. -/
theorem follows_push {push : Instr Target} {value : V}
    (hplaced : Placed code exits m.pc (ExprCode.code ⟨[push], next, true⟩))
    (hpush : ∀ place, m.perform interp (push.mapTarget place) = some (m.push value))
    (hagrees : Agrees pairs state m) :
    Follows interp code fuel m (.ok (some value, state)) fun result last =>
      last.pc = m.pc + (ExprCode.code ⟨[push], next, true⟩).length ∧
        last.stack = result.1.toList ++ m.stack ∧ result.1.isSome = true ∧
        Agrees pairs result.2 last :=
  .single (Placed.cons_iff.mp hplaced).1 (hpush _) ⟨rfl, rfl, rfl, hagrees.of_eq rfl rfl⟩

/-- A name that is pushed has a value, which the pushed instruction gives. -/
theorem read_of_pushName (interp : Interpretation V) {site : Site} {name : String}
    {push : Instr Target} (hpush : pushName site scope name = .ok push)
    (hlinked : env.Linked pairs scope) (hagrees : Agrees pairs state m) :
    ∃ value, state.read interp (env.lookup name) = .ok value ∧
      ∀ place, m.perform interp (push.mapTarget place) = some (m.push value) := by
  rcases pushName_ok hpush with ⟨value, hname, hnumber⟩ | ⟨slot, hname, rfl⟩ | ⟨id, hname, rfl⟩
  · obtain ⟨referent, hlookup, hsame⟩ := hlinked.lookup_of_resolve? hname
    obtain ⟨rfl, hword⟩ := pushNumber_ok hnumber
    cases hsame
    refine ⟨interp.number value, by rw [hlookup]; rfl, fun place => ?_⟩
    simp only [Instr.mapTarget, Machine.perform, hword]
  · obtain ⟨referent, hlookup, hsame⟩ := hlinked.lookup_of_resolve? hname
    cases hsame with
    | paired hpair =>
      have hvalue := hagrees.kept _ hpair
      refine ⟨m.locals slot, ?_, fun place => rfl⟩
      rw [hlookup]
      simp only [State.read, hvalue]
  · obtain ⟨referent, hlookup, hsame⟩ := hlinked.lookup_of_resolve? hname
    cases hsame
    refine ⟨m.world.globals id, ?_, fun place => rfl⟩
    rw [hlookup, hagrees.world]
    rfl

/-- The code of a call's arguments leaves their values, the last on top. -/
theorem compileArgs_follows (hgrow : setting.Growing) {args : List Expr}
    (h : ∀ arg ∈ args, ExprFollows interp code fuel setting calls arg) {back : Fragment}
    {behind : Nat} (hargs : compileArgs setting scope line args next = .ok (back, behind))
    (hlinked : env.Linked pairs scope) (hsound : pairs.Sound next)
    (hplaced : Placed code exits m.pc back.reverse) (hagrees : Agrees pairs state m) :
    Follows interp code fuel m (evalArgs interp calls env args state) fun result last =>
      last.pc = m.pc + back.reverse.length ∧ last.stack = result.1.reverse ++ m.stack ∧
        result.1.length = args.length ∧ Agrees pairs result.2 last := by
  induction args generalizing next back state m with
  | nil =>
    rw [compileArgs] at hargs
    obtain ⟨rfl, rfl⟩ := Prod.mk.inj (Except.ok.inj hargs)
    exact .ok ⟨rfl, rfl, rfl, hagrees⟩
  | cons arg rest ih =>
    obtain ⟨fragment, middle, restBack, harg, hrest, hback⟩ := compileArgs_cons_ok hargs
    rw [hback] at hplaced ⊢
    obtain ⟨hfirst, hlast⟩ := Placed.append_iff.mp hplaced
    have hle := (exprGrows hgrow scope line arg).value harg
    rw [evalArgs_cons]
    refine ((h arg List.mem_cons_self).value harg hlinked hsound hfirst hagrees).bind ?_
    rintro ⟨value, after⟩ last ⟨hpc, hstack, hafter⟩
    rw [← hpc] at hlast
    refine (ih (fun other hother => h other (List.mem_cons_of_mem arg hother)) hrest
      (hsound.mono hle) hlast hafter).bind ?_
    rintro ⟨values, final⟩ finish ⟨hpc', hstack', hlength, hfinal⟩
    refine .ok ⟨?_, ?_, ?_, hfinal⟩
    · rw [hpc', hpc, List.length_append, Nat.add_assoc]
    · rw [hstack', hstack]
      simp
    · simpa using hlength

/-- A call of a script function, which leaves no value. -/
theorem callRoutine_follows (hcalls : CallsFollow interp code fuel setting calls) {site : Site}
    {name : String} {routine : Routine} {argc : Nat} {compiled : ExprCode}
    (hcall : callRoutine setting site name routine argc next = .ok compiled)
    (hsound : pairs.Sound next) (hplaced : Placed code exits m.pc compiled.code)
    (hagrees : Agrees pairs state m) :
    Follows interp code fuel m (evalRoutine interp calls routine argc state) fun after last =>
      last.pc = m.pc + compiled.code.length ∧ last.stack = m.stack ∧ Agrees pairs after last := by
  obtain ⟨rfl, _, ⟨hinlined, hexpand⟩ | ⟨hinlined, number, hnumber, hcode, _⟩⟩ :=
    callRoutine_ok hcall
  · simp only [evalRoutine, hinlined, ne_eq, not_true_eq_false, if_true, if_false]
    exact hcalls routine next _ _ hexpand exits pairs state m hsound hplaced hagrees
  · simp only [evalRoutine, hinlined, hnumber, ne_eq, not_true_eq_false, Bool.false_eq_true,
      if_false]
    rw [hcode] at hplaced ⊢
    exact .single (Placed.cons_iff.mp hplaced).1 rfl
      ⟨rfl, rfl, hagrees.record interp (.started number) rfl rfl⟩

/-- A call of the engine takes the arguments' values, the last of which is on top. -/
theorem callEngine_follows {builtin : Builtin} (hmem : builtin ∈ Engine.builtins) {values : List V}
    {stack : List V} (hinstr : code[m.pc]? =
      some (.callBuiltin builtin.id (UInt8.ofNat builtin.arity)))
    (hlength : values.length = builtin.arity) (hstack : m.stack = values.reverse ++ stack)
    (hagrees : Agrees pairs state m) :
    Follows interp code fuel m
      (.ok (if builtin.returns then some (interp.answer builtin.id values state.world) else none,
        state.record interp (.called builtin.id values)))
      fun result last => last.pc = m.pc + 1 ∧ last.stack = result.1.toList ++ stack ∧
        result.1.isSome = builtin.returns ∧ Agrees pairs result.2 last := by
  obtain ⟨harity, hreturns⟩ := builtins_arity_and_returns builtin hmem
  have hargc : (UInt8.ofNat builtin.arity).toNat = values.reverse.length := by
    rw [List.length_reverse, hlength]
    simpa using Nat.mod_eq_of_lt harity
  have htake : (m.stack.take values.reverse.length).reverse = values := by
    rw [hstack, List.take_left, List.reverse_reverse]
  have hdrop : m.stack.drop values.reverse.length = stack := by
    rw [hstack, List.drop_left]
  have hstep : m.perform interp (.callBuiltin builtin.id (UInt8.ofNat builtin.arity)) =
      some (m.callEngine interp builtin.id values.reverse.length) := by
    rw [Machine.perform, hargc, if_pos]
    rw [hstack, List.length_append]
    exact Nat.le_add_right _ _
  refine .single hinstr hstep ⟨rfl, ?_, ?_, hagrees.record interp _ ?_ rfl⟩
  · simp only [Machine.callEngine, htake, hdrop, hreturns, hagrees.world]
    cases builtin.returns <;> rfl
  · cases builtin.returns <;> rfl
  · simp only [Machine.callEngine, htake]

/-- The machine follows every expression. -/
theorem exprFollows (hgrow : setting.Growing) (hcalls : CallsFollow interp code fuel setting calls)
    (expr : Expr) : ExprFollows interp code fuel setting calls expr := by
  induction expr using Expr.induction with
  | int value =>
    intro scope env line next compiled hcompiled exits pairs state m _ _ hplaced hagrees
    obtain ⟨push, hpush, rfl⟩ := compileExpr_int_ok hcompiled
    obtain ⟨rfl, hword⟩ := pushNumber_ok hpush
    rw [evalExpr]
    refine follows_push hplaced (fun place => ?_) hagrees
    simp only [Instr.mapTarget, Machine.perform, hword]
  | str text =>
    intro scope env line next compiled hcompiled exits pairs state m _ _ hplaced hagrees
    obtain rfl := compileExpr_str_ok hcompiled
    rw [evalExpr]
    exact follows_push hplaced (fun place => rfl) hagrees
  | ident name =>
    intro scope env line next compiled hcompiled exits pairs state m hlinked _ hplaced hagrees
    obtain ⟨push, hpush, rfl⟩ := compileExpr_ident_ok hcompiled
    obtain ⟨value, hread, hperform⟩ := read_of_pushName interp hpush hlinked hagrees
    rw [evalExpr, hread]
    exact follows_push hplaced hperform hagrees
  | call name args ih =>
    intro scope env line next compiled hcompiled exits pairs state m hlinked hsound hplaced hagrees
    rcases compileExpr_call_ok hcompiled with
      ⟨builtin, back, hname, harity, hargs, hcode, hvalue⟩ | ⟨routine, hname, hcall⟩
    · obtain ⟨referent, hlookup, hsame⟩ := hlinked.lookup_of_resolve? hname
      cases hsame
      rw [hcode] at hplaced ⊢
      obtain ⟨hfirst, hlast⟩ := Placed.append_iff.mp hplaced
      rw [evalExpr, hlookup]
      simp only [harity, ne_eq, not_true_eq_false, if_false]
      refine (compileArgs_follows hgrow ih hargs hlinked hsound hfirst hagrees).bind ?_
      rintro ⟨values, after⟩ last ⟨hpc, hstack, hlength, hafter⟩
      have hinstr := (Placed.cons_iff.mp hlast).1
      rw [← hpc, harity] at hinstr
      refine (callEngine_follows (mem_builtins_of_resolve? hname) hinstr (hlength.trans harity)
        hstack hafter).imp ?_
      rintro ⟨answer, final⟩ finish ⟨hpc', hstack', hsome, hfinal⟩
      refine ⟨?_, hstack', hsome.trans hvalue.symm, hfinal⟩
      rw [hpc', hpc, List.length_append, Nat.add_assoc]
      rfl
    · obtain ⟨referent, hlookup, hsame⟩ := hlinked.lookup_of_resolve? hname
      cases hsame
      rw [evalExpr, hlookup]
      refine (callRoutine_follows hcalls hcall hsound hplaced hagrees).bind ?_
      rintro after last ⟨hpc, hstack, hafter⟩
      exact .ok ⟨hpc, hstack, (callRoutine_ok hcall).2.1.symm, hafter⟩
  | unary op expr ih =>
    intro scope env line next compiled hcompiled exits pairs state m hlinked hsound hplaced hagrees
    obtain ⟨fragment, hvalue, hcode, hleaves⟩ := compileExpr_unary_ok hcompiled
    rw [hcode] at hplaced ⊢
    obtain ⟨hfirst, hlast⟩ := Placed.append_iff.mp hplaced
    rw [evalExpr_unary]
    refine (ih.value hvalue hlinked hsound hfirst hagrees).bind ?_
    rintro ⟨value, after⟩ last ⟨hpc, hstack, hafter⟩
    have hinstr := (Placed.cons_iff.mp hlast).1
    rw [← hpc] at hinstr
    refine .single hinstr (by simp only [Instr.mapTarget, Machine.perform, hstack]; rfl) ?_
    refine ⟨?_, rfl, hleaves.symm, hafter.of_eq rfl rfl⟩
    simp only [hpc, List.length_append, List.length_singleton, Nat.add_assoc]
  | binary op left right ihLeft ihRight =>
    intro scope env line next compiled hcompiled exits pairs state m hlinked hsound hplaced hagrees
    obtain ⟨leftCode, middle, rightCode, hleft, hright, hcode, hleaves⟩ :=
      compileExpr_binary_ok hcompiled
    rw [hcode] at hplaced ⊢
    obtain ⟨hoperands, hlast⟩ := Placed.append_iff.mp hplaced
    obtain ⟨hfirst, hsecond⟩ := Placed.append_iff.mp hoperands
    have hle := (exprGrows hgrow scope line left).value hleft
    rw [evalExpr_binary]
    refine (ihLeft.value hleft hlinked hsound hfirst hagrees).bind ?_
    rintro ⟨leftValue, after⟩ last ⟨hpc, hstack, hafter⟩
    rw [← hpc] at hsecond
    refine (ihRight.value hright hlinked (hsound.mono hle) hsecond hafter).bind ?_
    rintro ⟨rightValue, final⟩ finish ⟨hpc', hstack', hfinal⟩
    have hinstr := (Placed.cons_iff.mp hlast).1
    rw [List.length_append, ← Nat.add_assoc, ← hpc, ← hpc'] at hinstr
    refine .single hinstr (by simp only [Instr.mapTarget, Machine.perform, hstack', hstack]; rfl) ?_
    refine ⟨?_, rfl, hleaves.symm, hfinal.of_eq rfl rfl⟩
    simp only [hpc', hpc, List.length_append, List.length_singleton, Nat.add_assoc]

end RoomForge.Code
