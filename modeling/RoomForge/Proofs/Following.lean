import RoomForge.Proofs.Interpreter

set_option autoImplicit false

/-! # Machines that follow a run

`Follows interp code fuel m result post` compares a run of a tree, of which only the result is
given, with the machine: if the run has a value, steps of the machine lead to a state that `post`
allows for that value; if the run ran out of fuel, the machine takes at least `fuel` steps; and the
run is never stuck. Both directions of "one terminates precisely if the other does" come from this
one relation, because a machine at its end takes no more steps.

`Follows.bind` and `Follows.turns` are the laws for what comes one after the other and for loops.
-/

namespace RoomForge.Code

variable {V α β : Type}

/-- The machine does what the run says. -/
def Follows (interp : Interpretation V) (code : List (Instr Nat)) (fuel : Nat) (m : Machine V)
    (result : Run α) (post : α → Machine V → Prop) : Prop :=
  match result with
  | .ok value => ∃ n last, m.steps interp code n = some last ∧ post value last
  | .error .exhausted => ∃ n last, fuel ≤ n ∧ m.steps interp code n = some last
  | .error .stuck => False

namespace Follows

variable {interp : Interpretation V} {code : List (Instr Nat)} {fuel : Nat} {m : Machine V}

/-- A run that is over asks for no steps. -/
theorem ok {value : α} {post : α → Machine V → Prop} (h : post value m) :
    Follows interp code fuel m (.ok value) post :=
  ⟨0, m, rfl, h⟩

/-- The machine may take steps before it follows the run. -/
theorem of_steps {n : Nat} {next : Machine V} {result : Run α} {post : α → Machine V → Prop}
    (hsteps : m.steps interp code n = some next)
    (h : Follows interp code fuel next result post) :
    Follows interp code (fuel + n) m result post := by
  match result with
  | .ok value =>
    obtain ⟨k, last, hlast, hpost⟩ := h
    exact ⟨n + k, last, Machine.steps_trans hsteps hlast, hpost⟩
  | .error .exhausted =>
    obtain ⟨k, last, hle, hlast⟩ := h
    exact ⟨n + k, last, by omega, Machine.steps_trans hsteps hlast⟩
  | .error .stuck => exact h

theorem mono_fuel {less : Nat} {result : Run α} {post : α → Machine V → Prop} (hle : less ≤ fuel)
    (h : Follows interp code fuel m result post) : Follows interp code less m result post := by
  match result with
  | .ok value => exact h
  | .error .exhausted =>
    obtain ⟨n, last, hfuel, hlast⟩ := h
    exact ⟨n, last, Nat.le_trans hle hfuel, hlast⟩
  | .error .stuck => exact h

theorem of_step {next : Machine V} {result : Run α} {post : α → Machine V → Prop}
    (hstep : m.step interp code = some next)
    (h : Follows interp code fuel next result post) : Follows interp code fuel m result post := by
  exact (h.of_steps (Machine.steps_one hstep)).mono_fuel (Nat.le_add_right fuel 1)

theorem imp {result : Run α} {post weaker : α → Machine V → Prop}
    (h : Follows interp code fuel m result post)
    (himp : ∀ value last, post value last → weaker value last) :
    Follows interp code fuel m result weaker := by
  match result with
  | .ok value =>
    obtain ⟨n, last, hlast, hpost⟩ := h
    exact ⟨n, last, hlast, himp value last hpost⟩
  | .error .exhausted => exact h
  | .error .stuck => exact h

/-- One instruction, behind which the run is over. -/
theorem single {instr : Instr Nat} {next : Machine V} {value : α} {post : α → Machine V → Prop}
    (hinstr : code[m.pc]? = some instr) (hnext : m.perform interp instr = some next)
    (h : post value next) : Follows interp code fuel m (.ok value) post := by
  refine of_step ?_ (ok h)
  rw [Machine.step_of_getElem? hinstr, hnext]

/-- One run after the other. -/
theorem bind {first : Run α} {next : α → Run β} {middle : α → Machine V → Prop}
    {post : β → Machine V → Prop} (hfirst : Follows interp code fuel m first middle)
    (hnext : ∀ value last, middle value last → Follows interp code fuel last (next value) post) :
    Follows interp code fuel m (first >>= next) post := by
  match first with
  | .ok value =>
    obtain ⟨n, last, hlast, hmiddle⟩ := hfirst
    exact ((hnext value last hmiddle).of_steps hlast).mono_fuel (Nat.le_add_right fuel n)
  | .error .exhausted => exact hfirst
  | .error .stuck => exact hfirst

/-- Behind the run the machine may take further steps. -/
theorem trans {result : Run α} {middle post : α → Machine V → Prop}
    (h : Follows interp code fuel m result middle)
    (hnext : ∀ value last, middle value last → Follows interp code fuel last (.ok value) post) :
    Follows interp code fuel m result post := by
  have hboth := h.bind hnext
  rwa [show result >>= Except.ok = result from bind_pure result] at hboth

theorem map {result : Run α} {f : α → β} {post : β → Machine V → Prop}
    (h : Follows interp code fuel m result fun value => post (f value)) :
    Follows interp code fuel m (f <$> result) post := by
  match result with
  | .ok value => exact h
  | .error .exhausted => exact h
  | .error .stuck => exact h

/-- The turns of a loop. What a turn keeps holds at the start of the next one, which the machine
reaches by at least one step, so that a loop without end takes any number of steps. -/
theorem turns {next : State V → Run (Option Ending × State V)}
    {inv : State V → Machine V → Prop} {post : Ending × State V → Machine V → Prop}
    (hturn : ∀ state m, inv state m → Follows interp code fuel m (next state)
      fun result last =>
        match result.1 with
        | some ending => post (ending, result.2) last
        | none => ∃ after, last.step interp code = some after ∧ inv result.2 after)
    (count : Nat) (state : State V) (m : Machine V) (hinv : inv state m) :
    Follows interp code (min count fuel) m (turns next count state) post := by
  induction count generalizing state m with
  | zero => exact ⟨0, m, Nat.min_le_left 0 fuel, rfl⟩
  | succ count ih =>
    have hfollows := hturn state m hinv
    rw [Code.turns]
    match hresult : next state, hfollows with
    | .ok (some ending, after), hfollows => exact hfollows
    | .ok (none, after), hfollows =>
      obtain ⟨n, last, hsteps, start, hstep, hagain⟩ := hfollows
      have hback := Machine.steps_trans hsteps (Machine.steps_one hstep)
      exact ((ih after start hagain).of_steps hback).mono_fuel (by omega)
    | .error .exhausted, hfollows => exact hfollows.mono_fuel (Nat.min_le_right _ fuel)
    | .error .stuck, hfollows => exact hfollows

end Follows

end RoomForge.Code
