import Mathlib.Logic.Function.Basic
import RoomForge.Code.Engine
import RoomForge.Code.Instruction

set_option autoImplicit false

/-! # The machine that runs scripts

A script runs on a stack machine with the instructions of section 4.3 of the specification. What its
values are, what operators compute and how the engine answers is left to an `Interpretation`; the
machine only moves values between the stack, the slots of local variables and the world that scripts
share with the engine. `perform_spec` says once what an instruction does, and results about machines
go by it.

The engine itself is outside of the specification (section 1). Results that speak of machines hold
for every interpretation.
-/

namespace RoomForge.Code

open RoomForge.Script

/-! ## What scripts share with the engine -/

/-- What a script does that can be seen from outside. -/
inductive Event (V : Type) where
  /-- A function of the engine is called. -/
  | called (id : UInt8) (args : List V)
  /-- Another script of the room is started. -/
  | started (number : UInt16)
  deriving DecidableEq, Repr, Inhabited

/-- The engine's variables, and what happened so far, the latest event first. -/
structure World (V : Type) where
  globals : UInt16 → V
  events : List (Event V) := []

/-- The meaning of values and operators, and the engine's part in a run. -/
structure Interpretation (V : Type) where
  number : Int → V
  text : String → V
  unary : UnOp → V → V
  binary : BinOp → V → V → V
  /-- Whether a condition of this value holds. -/
  holds : V → Bool
  /-- The answer of a function of the engine. -/
  answer : (id : UInt8) → (args : List V) → World V → V
  /-- The engine's variables behind an event. -/
  react : Event V → World V → UInt16 → V

variable {V : Type}

namespace World

/-- The world behind an event. -/
def record (interp : Interpretation V) (world : World V) (event : Event V) : World V :=
  ⟨interp.react event world, event :: world.events⟩

/-- The world behind an assignment to a variable of the engine. -/
def store (world : World V) (id : UInt16) (value : V) : World V :=
  { world with globals := Function.update world.globals id value }

end World

/-- Whether a call of the engine's function number `id` leaves a value. -/
def Engine.returns (id : UInt8) : Bool :=
  (Engine.builtins.find? fun builtin => builtin.id == id).any (·.returns)

/-! ## Runs without a result -/

/-- Why a run has no result. -/
inductive Stop where
  /-- The run is longer than it was allowed to be. -/
  | exhausted
  /-- There is no way to go on. -/
  | stuck
  deriving DecidableEq, Repr, Inhabited

/-- The result of a run, if it has one. -/
abbrev Run (α : Type) := Except Stop α

/-! ## The machine -/

/-- The state of the machine. -/
structure Machine (V : Type) where
  /-- The index of the next instruction. -/
  pc : Nat
  /-- The operands, the latest first. -/
  stack : List V
  locals : UInt8 → V
  world : World V

namespace Machine

/-- Pushes a value and goes on. -/
def push (m : Machine V) (value : V) : Machine V :=
  { m with pc := m.pc + 1, stack := value :: m.stack }

/-- The machine behind a call of the engine's function number `id`, which takes `argc` operands. -/
def callEngine (interp : Interpretation V) (m : Machine V) (id : UInt8) (argc : Nat) : Machine V :=
  let args := (m.stack.take argc).reverse
  let rest := m.stack.drop argc
  { m with
    pc := m.pc + 1
    stack := if Engine.returns id then interp.answer id args m.world :: rest else rest
    world := m.world.record interp (.called id args) }

/-- The machine behind an instruction. There is none behind the end of the script, or if operands
are missing. -/
def perform (interp : Interpretation V) (m : Machine V) : Instr Nat → Option (Machine V)
  | .pushWord value => some (m.push (interp.number value.toInt))
  | .pushString text => some (m.push (interp.text text))
  | .loadLocal slot => some (m.push (m.locals slot))
  | .loadGlobal id => some (m.push (m.world.globals id))
  | .storeLocal slot =>
    match m.stack with
    | value :: rest =>
      some { m with pc := m.pc + 1, stack := rest, locals := Function.update m.locals slot value }
    | [] => none
  | .storeGlobal id =>
    match m.stack with
    | value :: rest =>
      some { m with pc := m.pc + 1, stack := rest, world := m.world.store id value }
    | [] => none
  | .binary op =>
    match m.stack with
    | right :: left :: rest =>
      some { m with pc := m.pc + 1, stack := interp.binary op left right :: rest }
    | _ => none
  | .unary op =>
    match m.stack with
    | value :: rest => some { m with pc := m.pc + 1, stack := interp.unary op value :: rest }
    | [] => none
  | .jump target => some { m with pc := target }
  | .jumpIfFalse target =>
    match m.stack with
    | value :: rest =>
      some { m with pc := if interp.holds value then m.pc + 1 else target, stack := rest }
    | [] => none
  | .startScript number =>
    some { m with pc := m.pc + 1, world := m.world.record interp (.started number) }
  | .callBuiltin id argc =>
    if argc.toNat ≤ m.stack.length then some (m.callEngine interp id argc.toNat) else none
  | .pop =>
    match m.stack with
    | _ :: rest => some { m with pc := m.pc + 1, stack := rest }
    | [] => none
  | .stop => none

/-- One step of the machine. -/
def step (interp : Interpretation V) (code : List (Instr Nat)) (m : Machine V) :
    Option (Machine V) :=
  code[m.pc]?.bind (m.perform interp)

/-- The machine after a number of steps, if it takes that many. -/
def steps (interp : Interpretation V) (code : List (Instr Nat)) :
    Nat → Machine V → Option (Machine V)
  | 0, m => some m
  | n + 1, m => (m.step interp code).bind (steps interp code n)

/-- Whether the machine is at the end of the script. -/
def AtStop (code : List (Instr Nat)) (m : Machine V) : Prop :=
  code[m.pc]? = some .stop

instance (code : List (Instr Nat)) (m : Machine V) : Decidable (m.AtStop code) :=
  inferInstanceAs (Decidable (_ = _))

/-- Runs the machine for at most `fuel` steps to the end of the script. -/
def run (interp : Interpretation V) (code : List (Instr Nat)) :
    (fuel : Nat) → Machine V → Run (World V)
  | 0, _ => .error .exhausted
  | fuel + 1, m =>
    if m.AtStop code then .ok m.world
    else
      match m.step interp code with
      | some next => run interp code fuel next
      | none => .error .stuck

end Machine

/-- The machine in front of a script. -/
def Machine.start (locals : UInt8 → V) (world : World V) : Machine V :=
  ⟨0, [], locals, world⟩

/-! ## Steps in a row -/

namespace Machine

variable {interp : Interpretation V} {code : List (Instr Nat)}

theorem step_of_getElem? {m : Machine V} {instr : Instr Nat} (h : code[m.pc]? = some instr) :
    m.step interp code = m.perform interp instr := by
  rw [step, h, Option.bind_some]

/-- Nothing follows the end of the script. -/
theorem step_of_atStop {m : Machine V} (h : m.AtStop code) : m.step interp code = none :=
  step_of_getElem? h

theorem steps_one {m next : Machine V} (h : m.step interp code = some next) :
    m.steps interp code 1 = some next := by
  simp [steps, h]

theorem steps_add (a b : Nat) (m : Machine V) :
    m.steps interp code (a + b) = (m.steps interp code a).bind (steps interp code b) := by
  induction a generalizing m with
  | zero => rw [Nat.zero_add, steps, Option.bind_some]
  | succ a ih =>
    rw [Nat.succ_add, steps, steps, Option.bind_assoc]
    cases m.step interp code with
    | none => rfl
    | some next => exact ih next

theorem steps_trans {a b : Nat} {first second third : Machine V}
    (hfirst : first.steps interp code a = some second)
    (hsecond : second.steps interp code b = some third) :
    first.steps interp code (a + b) = some third := by
  rw [steps_add, hfirst, Option.bind_some, hsecond]

/-- A machine at the end of the script takes no steps. -/
theorem steps_of_atStop {n : Nat} {m last : Machine V} (hstop : m.AtStop code)
    (h : m.steps interp code n = some last) : n = 0 := by
  cases n with
  | zero => rfl
  | succ n => simp [steps, step_of_atStop hstop] at h

/-- How far a machine gets before the end of the script is determined. -/
theorem steps_le_of_atStop {a b : Nat} {m last other : Machine V}
    (hlast : m.steps interp code a = some last) (hstop : last.AtStop code)
    (hother : m.steps interp code b = some other) : b ≤ a := by
  by_contra hlt
  obtain ⟨rest, rfl⟩ := Nat.exists_eq_add_of_le (Nat.le_of_not_le hlt)
  rw [steps_add, hlast, Option.bind_some] at hother
  have hrest := steps_of_atStop hstop hother
  omega

/-! ## Runs and steps -/

/-- A run has a result precisely if steps lead to the end of the script. -/
theorem run_eq_ok_iff {fuel : Nat} {m : Machine V} {world : World V} :
    m.run interp code fuel = .ok world ↔
      ∃ n last, n < fuel ∧ m.steps interp code n = some last ∧ last.AtStop code ∧
        last.world = world := by
  induction fuel generalizing m with
  | zero => simp [run]
  | succ fuel ih =>
    rw [run]
    by_cases hstop : m.AtStop code
    · rw [if_pos hstop]
      constructor
      · intro h
        exact ⟨0, m, Nat.zero_lt_succ fuel, rfl, hstop, Except.ok.inj h⟩
      · rintro ⟨n, last, _, hsteps, _, hworld⟩
        obtain rfl := steps_of_atStop hstop hsteps
        obtain rfl := Option.some.inj hsteps
        rw [hworld]
    · rw [if_neg hstop]
      constructor
      · intro h
        cases hstep : m.step interp code with
        | none => simp [hstep] at h
        | some next =>
          rw [hstep] at h
          obtain ⟨n, last, hlt, hsteps, hlast, hworld⟩ := ih.mp h
          refine ⟨n + 1, last, Nat.succ_lt_succ hlt, ?_, hlast, hworld⟩
          rw [steps, hstep, Option.bind_some, hsteps]
      · rintro ⟨n, last, hlt, hsteps, hlast, hworld⟩
        cases n with
        | zero =>
          obtain rfl := Option.some.inj hsteps
          exact absurd hlast hstop
        | succ n =>
          rw [steps] at hsteps
          obtain ⟨next, hstep, hrest⟩ := Option.bind_eq_some_iff.mp hsteps
          rw [hstep]
          exact ih.mpr ⟨n, last, Nat.lt_of_succ_lt_succ hlt, hrest, hlast, hworld⟩

/-- A machine that takes `fuel` steps, or gets to the end of the script, is not stuck on its way. -/
theorem run_ne_stuck {fuel : Nat} {m last : Machine V} {n : Nat}
    (hsteps : m.steps interp code n = some last) (hlast : fuel ≤ n ∨ last.AtStop code) :
    m.run interp code fuel ≠ .error .stuck := by
  induction fuel generalizing m n with
  | zero => simp [run]
  | succ fuel ih =>
    rw [run]
    by_cases hstop : m.AtStop code
    · simp [hstop]
    · rw [if_neg hstop]
      cases n with
      | zero =>
        obtain rfl := Option.some.inj hsteps
        exact absurd (hlast.resolve_left (by omega)) hstop
      | succ n =>
        rw [steps] at hsteps
        obtain ⟨next, hstep, hrest⟩ := Option.bind_eq_some_iff.mp hsteps
        rw [hstep]
        exact ih hrest (hlast.imp_left Nat.le_of_succ_le_succ)

end Machine

/-! ## Operands and successors -/

namespace Instr

variable {τ σ : Type}

/-- How many operands an instruction takes. -/
def pops : Instr τ → Nat
  | pushWord _ | pushString _ | loadLocal _ | loadGlobal _ | jump _ | startScript _ | stop => 0
  | storeLocal _ | storeGlobal _ | unary _ | jumpIfFalse _ | pop => 1
  | binary _ => 2
  | callBuiltin _ argc => argc.toNat

/-- How many values an instruction leaves. -/
def pushes : Instr τ → Nat
  | pushWord _ | pushString _ | loadLocal _ | loadGlobal _ | binary _ | unary _ => 1
  | callBuiltin id _ => if Engine.returns id then 1 else 0
  | storeLocal _ | storeGlobal _ | jump _ | jumpIfFalse _ | startScript _ | pop | stop => 0

/-- The instructions that can be next behind the one at `index`. -/
def successors (index : Nat) : Instr Nat → List Nat
  | jump target => [target]
  | jumpIfFalse target => [index + 1, target]
  | stop => []
  | _ => [index + 1]

@[simp] theorem pops_mapTarget (f : τ → σ) (instr : Instr τ) :
    (instr.mapTarget f).pops = instr.pops := by
  cases instr <;> rfl

@[simp] theorem pushes_mapTarget (f : τ → σ) (instr : Instr τ) :
    (instr.mapTarget f).pushes = instr.pushes := by
  cases instr <;> rfl

end Instr

namespace Machine

variable {interp : Interpretation V}

/-- What a step does to the stack, and where it leads. -/
theorem perform_spec {m next : Machine V} {instr : Instr Nat}
    (h : m.perform interp instr = some next) :
    next.stack.length = m.stack.length - instr.pops + instr.pushes ∧
      next.pc ∈ instr.successors m.pc := by
  cases instr with
  | pushWord | pushString | loadLocal | loadGlobal | jump | startScript =>
    obtain rfl := Option.some.inj h
    exact ⟨rfl, List.mem_singleton_self _⟩
  | storeLocal | storeGlobal | unary | pop =>
    simp only [perform] at h
    split at h
    · next value rest hstack =>
      obtain rfl := Option.some.inj h
      simp [Instr.pops, Instr.pushes, Instr.successors, hstack]
    · exact absurd h (by simp)
  | binary =>
    simp only [perform] at h
    split at h
    · next right left rest hstack =>
      obtain rfl := Option.some.inj h
      simp [Instr.pops, Instr.pushes, Instr.successors, hstack]
    · exact absurd h (by simp)
  | jumpIfFalse target =>
    simp only [perform] at h
    split at h
    · next value rest hstack =>
      obtain rfl := Option.some.inj h
      refine ⟨by simp [Instr.pops, Instr.pushes, hstack], ?_⟩
      cases interp.holds value <;> simp [Instr.successors]
    · exact absurd h (by simp)
  | callBuiltin id argc =>
    simp only [perform] at h
    split at h
    · next hargc =>
      obtain rfl := Option.some.inj h
      refine ⟨?_, List.mem_singleton_self _⟩
      simp only [callEngine, Instr.pops, Instr.pushes]
      cases Engine.returns id <;> simp
    · exact absurd h (by simp)
  | stop => exact absurd h (by simp [perform])

/-- An instruction that finds its operands can be performed, unless it ends the script. -/
theorem exists_perform {m : Machine V} {instr : Instr Nat} (hpops : instr.pops ≤ m.stack.length)
    (hstop : instr ≠ .stop) : ∃ next, m.perform interp instr = some next := by
  cases instr with
  | pushWord | pushString | loadLocal | loadGlobal | jump | startScript => exact ⟨_, rfl⟩
  | storeLocal | storeGlobal | unary | jumpIfFalse | pop =>
    obtain ⟨value, rest, hstack⟩ := List.exists_cons_of_length_pos hpops
    simp [perform, hstack]
  | binary =>
    obtain ⟨right, rest, hstack⟩ := List.exists_cons_of_length_pos (Nat.lt_of_succ_lt hpops)
    rw [hstack] at hpops
    obtain ⟨left, rest, rfl⟩ := List.exists_cons_of_length_pos (Nat.le_of_succ_le_succ hpops)
    simp [perform, hstack]
  | callBuiltin id argc => exact ⟨_, if_pos hpops⟩
  | stop => exact absurd rfl hstop

end Machine

end RoomForge.Code
