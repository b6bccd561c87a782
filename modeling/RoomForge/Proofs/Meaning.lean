import RoomForge.Proofs.Execution

set_option autoImplicit false

/-! # Compiled code means what its tree means

A function's code and its tree have the same runs: one comes to an end precisely if the other does,
and then the engine's variables, the calls of the engine and the scripts started are the same
(`compiled_code_means_its_tree`; specification, section 4.3). An inlined call is a body that knows
the names of its room alone. The tree's fuel bounds how deep calls are nested, and so does the depth
to which calls are expanded; the machine's steps are counted with what the former is ahead of the
latter.

The result holds for every interpretation of values and of the engine. It needs the code to exist:
functions that are refused have no runs.
-/

namespace RoomForge.Code

open RoomForge.Script

variable {V : Type} {interp : Interpretation V} {code : List (Instr Nat)} {fuel : Nat}
  {setting : Setting} {exits : Exits} {pairs : Pairing} {state : State V} {m : Machine V}

/-! ## Bodies and calls -/

section

variable {roomEnv : Env} {room : Scope} (hroom : ∀ pairs : Pairing, roomEnv.Linked pairs room)

include hroom

/-- The code of a function's body ends behind itself or in front of what a `return` stands for. -/
theorem body_follows {routine : Routine} {depth next : Nat} {compiled : StmtCode}
    (hgrow : setting.Growing)
    (hcalls : CallsFollow interp code fuel setting (execRoutine interp roomEnv depth))
    (hfuel : fuel ≤ depth + 1)
    (hbody : compileStmt setting routine.body (room.push .function) next = .ok compiled)
    (hsound : pairs.Sound next) (hplaced : Placed code exits m.pc compiled.code)
    (hagrees : Agrees pairs state m) :
    Follows interp code fuel m (execRoutine interp roomEnv (depth + 1) routine state)
      fun after last =>
        (last.pc = m.pc + compiled.code.length ∨
          code[last.pc]? = some (if setting.inlined then .jump exits.bodyEnd else .stop)) ∧
        last.stack = m.stack ∧ Agrees pairs after last := by
  rw [execRoutine]
  refine (stmtFollows hgrow hcalls hfuel routine.body _ _ _ _ hbody exits pairs state m
    ((hroom pairs).enter .function) hsound hplaced hagrees).bind ?_
  rintro ⟨ending, _, after⟩ last ⟨⟨harrived, hstack, hagrees⟩, _⟩
  cases ending with
  | done => exact .ok ⟨.inl harrived, hstack, hagrees⟩
  | left => exact .ok ⟨.inr harrived, hstack, hagrees⟩
  | broke | continued =>
    -- No loop reaches into a function's body.
    exact absurd harrived.1 (by simp [Scope.push, Scope.inLoop])

/-- The code of an inlined function does what calling it means. -/
theorem expandCall_follows (function : String) (inlined : Bool) (depth fuel : Nat)
    (names : List String) :
    CallsFollow interp code (fuel - depth) ⟨function, inlined, expandCall function room depth names⟩
      (execRoutine interp roomEnv fuel) := by
  induction depth generalizing inlined fuel names with
  | zero =>
    intro routine next fragment behind hexpand
    obtain ⟨rest, _, hdepth, _⟩ := expandCall_ok hexpand
    exact absurd hdepth (by simp)
  | succ depth ih =>
    intro routine next fragment behind hexpand exits pairs state m hsound hplaced hagrees
    obtain ⟨rest, inner, hdepth, _, hinner, rfl, rfl⟩ := expandCall_ok hexpand
    obtain rfl := Nat.succ.inj hdepth
    cases fuel with
    | zero => exact ⟨0, m, Nat.le_of_eq (Nat.zero_sub _), rfl⟩
    | succ fuel =>
      have hbody := hplaced.body
      rw [Nat.add_sub_add_right, Fragment.length_settle]
      refine (body_follows hroom (expandCall_growing function room depth _ true)
        (ih true fuel (routine.name :: names)) (by omega) hinner hsound hbody hagrees).trans ?_
      rintro after last ⟨hpc | hjump, hstack, hagrees⟩
      · exact .ok ⟨hpc, hstack, hagrees⟩
      · exact .single hjump rfl ⟨rfl, hstack, hagrees.of_eq rfl rfl⟩

/-- The machine follows the run of a function up to the end of the script. -/
theorem runRoutine_follows {routine : Routine} {listing : Listing}
    (h : compileListing room routine = .ok listing) (interp : Interpretation V)
    (locals : UInt8 → V) (world : World V) (fuel : Nat) :
    Follows interp listing.instrs (fuel - (room.routines.length + 2)) (Machine.start locals world)
      (runRoutine interp roomEnv routine fuel world)
      fun result last => last.AtStop listing.instrs ∧ last.world = result := by
  obtain ⟨body, hbody, hlink, _⟩ := compileListing_ok h
  obtain ⟨hplaced, hend⟩ := Placed.append_iff.mp (placed_of_link? default hlink)
  have hstop := (Placed.cons_iff.mp hend).1
  cases fuel with
  | zero => exact ⟨0, _, Nat.le_of_eq (Nat.zero_sub _), rfl⟩
  | succ fuel =>
    have hcalls : CallsFollow interp listing.instrs (fuel - (room.routines.length + 1))
        (.ofRoutine room routine) (execRoutine interp roomEnv fuel) :=
      expandCall_follows hroom routine.name false (room.routines.length + 1) fuel []
    have hgrow : (Setting.ofRoutine room routine).Growing :=
      expandCall_growing routine.name room (room.routines.length + 1) [] false
    have hagrees : Agrees [] ⟨[], world⟩ (Machine.start locals world) :=
      ⟨rfl, fun pair hpair => absurd hpair List.not_mem_nil⟩
    rw [runRoutine, Nat.add_sub_add_right]
    refine (body_follows hroom hgrow hcalls (by omega) hbody .nil hplaced hagrees).bind ?_
    rintro after last ⟨hpc | hleft, _, hagrees⟩
    · refine .ok ⟨?_, hagrees.world⟩
      rw [← show last.pc = 0 + body.code.length from hpc] at hstop
      exact hstop
    · exact .ok ⟨hleft, hagrees.world⟩

end

/-! ## Runs that end -/

section

variable {results : Nat → Run (World V)} {slack : Nat}
  (h : ∀ fuel, Follows interp code (fuel - slack) m (results fuel)
    fun result last => last.AtStop code ∧ last.world = result)

include h

/-- A machine that follows a run with any amount of fuel ends precisely if the run does. -/
theorem Follows.ends_iff (result : World V) :
    (∃ fuel, results fuel = .ok result) ↔ ∃ fuel, m.run interp code fuel = .ok result := by
  constructor
  · rintro ⟨fuel, hresult⟩
    have hfollows := h fuel
    rw [hresult] at hfollows
    obtain ⟨n, last, hsteps, hstop, hworld⟩ := hfollows
    exact ⟨n + 1, Machine.run_eq_ok_iff.mpr ⟨n, last, Nat.lt_succ_self n, hsteps, hstop, hworld⟩⟩
  · rintro ⟨fuel, hrun⟩
    obtain ⟨n, last, _, hsteps, hstop, hworld⟩ := Machine.run_eq_ok_iff.mp hrun
    -- One unit of fuel more than the machine takes steps leaves the run no excuse.
    refine ⟨n + 1 + slack, ?_⟩
    have hfollows := h (n + 1 + slack)
    rw [Nat.add_sub_cancel] at hfollows
    match hresult : results (n + 1 + slack), hfollows with
    | .ok other, hfollows =>
      obtain ⟨k, finish, hfinish, hstop', hworld'⟩ := hfollows
      obtain rfl : n = k := Nat.le_antisymm (Machine.steps_le_of_atStop hfinish hstop' hsteps)
        (Machine.steps_le_of_atStop hsteps hstop hfinish)
      obtain rfl : last = finish := Option.some.inj (hsteps.symm.trans hfinish)
      rw [← hworld', hworld]
    | .error .exhausted, hfollows =>
      obtain ⟨k, other, hle, hother⟩ := hfollows
      have hbound := Machine.steps_le_of_atStop hsteps hstop hother
      omega

/-- Neither of them is ever stuck. -/
theorem Follows.never_stuck (fuel : Nat) :
    results fuel ≠ .error .stuck ∧ m.run interp code fuel ≠ .error .stuck := by
  constructor
  · intro hresult
    have hfollows := h fuel
    rw [hresult] at hfollows
    exact hfollows
  · have hfollows := h (fuel + slack)
    rw [Nat.add_sub_cancel] at hfollows
    match results (fuel + slack), hfollows with
    | .ok result, ⟨n, last, hsteps, hstop, _⟩ => exact Machine.run_ne_stuck hsteps (.inr hstop)
    | .error .exhausted, ⟨n, last, hle, hsteps⟩ => exact Machine.run_ne_stuck hsteps (.inl hle)

end

/-- A function's code, run from its first instruction, ends with a world precisely if the function's
tree does, whatever the operators mean and the engine answers, and whatever the slots hold at first.
Neither run is ever without a way to go on. -/
theorem compiled_code_means_its_tree (constants : List Constant) (routines : List Routine)
    (routine : Routine) (listing : Listing)
    (h : compileListing (.ofRoom constants routines) routine = .ok listing)
    (interp : Interpretation V) (locals : UInt8 → V) (world : World V) :
    (∀ result,
      (∃ fuel, runRoutine interp (.ofRoom constants routines) routine fuel world = .ok result) ↔
        ∃ fuel, (Machine.start locals world).run interp listing.instrs fuel = .ok result) ∧
      ∀ fuel, runRoutine interp (.ofRoom constants routines) routine fuel world ≠ .error .stuck ∧
        (Machine.start locals world).run interp listing.instrs fuel ≠ .error .stuck := by
  have hfollows := runRoutine_follows (fun pairs => Env.Linked.ofRoom constants routines) h interp
    locals world
  exact ⟨Follows.ends_iff hfollows, Follows.never_stuck hfollows⟩

/-- An inlined function that returns before its last statement. -/
def knock : Routine where
  name := "knock"
  kind := .inlined
  body := .block 1 [.eval 2 (.call "delay" [.ident "PAUSE"]), .leave 3,
    .eval 4 (.call "print" [.str "unheard"])]
  line := 1

/-- A function that calls another one in every turn of a loop. -/
def knockTwice : Routine where
  name := "knockTwice"
  kind := .normal
  body := .block 6 [.forLoop 7 (some (.var 7 "turn" none))
    (some (.binary .lt (.ident "turn") (.int 2)))
    (some (.assign 7 "turn" (.binary .add (.ident "turn") (.int 1))))
    (.block 7 [.eval 8 (.call "knock" []), .assign 9 "timer" (.ident "turn")])]
  line := 6

/-- Values are numbers, and nothing but scripts changes the engine's variables. -/
def counting : Interpretation Int where
  number := id
  text _ := 0
  unary _ value := -value
  binary
    | .lt, left, right => if left < right then 1 else 0
    | _, left, right => left + right
  holds value := value ≠ 0
  answer _ _ _ := 0
  react _ world := world.globals

/-- Knocking twice ends, with two delays and the last turn's number in the engine's variable. -/
theorem knockTwice_means_its_tree :
    ∃ listing, compileListing (.ofRoom [⟨"PAUSE", 5⟩] [knock]) knockTwice = .ok listing ∧
      ∃ result fuel,
        (Machine.start (fun _ => 7) ⟨fun _ => 0, []⟩).run counting listing.instrs fuel =
          .ok result ∧
        result.events = [.called 3 [5], .called 3 [5]] ∧ result.globals 5 = 1 := by
  obtain ⟨listing, hlisting⟩ : ∃ listing,
      compileListing (.ofRoom [⟨"PAUSE", 5⟩] [knock]) knockTwice = .ok listing :=
    exists_ok_of_isOk (by decide +kernel)
  have hseen : (runRoutine counting (.ofRoom [⟨"PAUSE", 5⟩] [knock]) knockTwice 4
      ⟨fun _ => 0, []⟩).map (fun world => (world.events, world.globals 5)) =
        .ok ([.called 3 [5], .called 3 [5]], 1) := by
    decide +kernel
  cases hrun : runRoutine counting (.ofRoom [⟨"PAUSE", 5⟩] [knock]) knockTwice 4
      ⟨fun _ => 0, []⟩ with
  | error stop => rw [hrun] at hseen; cases hseen
  | ok result =>
    rw [hrun] at hseen
    obtain ⟨hevents, hglobal⟩ := Prod.mk.inj (Except.ok.inj hseen)
    obtain ⟨hends, _⟩ := compiled_code_means_its_tree [⟨"PAUSE", 5⟩] [knock] knockTwice listing
      hlisting counting (fun _ => 7) ⟨fun _ => 0, []⟩
    obtain ⟨fuel, hmachine⟩ := (hends result).mp ⟨4, hrun⟩
    exact ⟨listing, hlisting, result, fuel, hmachine, hevents, hglobal⟩

end RoomForge.Code
