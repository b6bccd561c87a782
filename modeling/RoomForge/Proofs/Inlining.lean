import Mathlib.Data.List.Perm.Subperm
import Mathlib.Logic.Relation
import RoomForge.Proofs.Callees

set_option autoImplicit false

/-! # Inlining ends and finds recursion

The body of an inlined function can call inlined functions in its turn. The functions being expanded
around a call always form a chain of calls. Names cannot repeat in the chain, which bounds its
length, and a name that would repeat closes a cycle of calls. So a function is refused for recursive
inlining (specification, section 4.3) exactly if its calls lead into such a cycle, and the depth
that the compiler gives itself is always enough: `inlining_ends_and_finds_recursion`.
-/

namespace RoomForge.Code

open RoomForge.Script

/-! ## Chains of expansions -/

section

variable {room : Scope}

/-- The names of functions being expanded, one inside the other: different names of inlined
functions of the room. -/
def Stacked (room : Scope) (names : List String) : Prop :=
  names.Nodup ∧ ∀ name ∈ names, ∃ routine ∈ room.routines,
    routine.isInlined = true ∧ routine.name = name

instance (room : Scope) (names : List String) : Decidable (Stacked room names) :=
  inferInstanceAs (Decidable (_ ∧ _))

/-- There are no more of them than functions. -/
theorem Stacked.length_le {names : List String} (h : Stacked room names) :
    names.length ≤ room.routines.length := by
  have hsub : names ⊆ room.routines.map Routine.name := by
    intro name hname
    obtain ⟨routine, hroutine, _, rfl⟩ := h.2 name hname
    exact List.mem_map_of_mem hroutine
  simpa using (h.1.subperm hsub).length_le

theorem Stacked.cons {names : List String} {routine : Routine} (h : Stacked room names)
    (hroutine : room.inlined? routine.name = some routine) (hnew : routine.name ∉ names) :
    Stacked room (routine.name :: names) := by
  obtain ⟨hname, hinlined⟩ := Scope.inlined?_eq_some_iff.mp hroutine
  refine ⟨List.nodup_cons.mpr ⟨hnew, h.1⟩, List.forall_mem_cons.mpr ⟨?_, h.2⟩⟩
  exact ⟨routine, (Scope.mem_routines_of_resolve? hname).1, hinlined, rfl⟩

/-- What the success of an expansion says about the calls inside of it. -/
theorem expandCall_ok_callees {function : String} {depth next : Nat} {calls : List String}
    {routine : Routine} {piece : Fragment × Nat}
    (h : expandCall function room depth calls routine next = .ok piece) :
    routine.name ∉ calls ∧ ∃ rest, ∀ callee, Inlines room routine callee →
      ∃ next piece, expandCall function room rest (routine.name :: calls) callee next =
        .ok piece := by
  obtain ⟨rest, inner, rfl, hname, hinner, _, _⟩ := expandCall_ok h
  exact ⟨hname, rest, ((body_asks room function true routine next).ok hinner).2⟩

/-- The expansion of a function expands all functions that it reaches, inside of the functions that
were being expanded before. -/
theorem expandCall_ok_of_reaches {function : String} {depth next : Nat} {calls : List String}
    {routine reached : Routine} {piece : Fragment × Nat}
    (h : expandCall function room depth calls routine next = .ok piece)
    (hreach : Relation.ReflTransGen (Inlines room) routine reached) :
    ∃ depth names next piece, calls ⊆ names ∧
      expandCall function room depth names reached next = .ok piece := by
  induction hreach with
  | refl => exact ⟨depth, calls, next, piece, List.Subset.refl calls, h⟩
  | @tail middle last _ hcall ih =>
    obtain ⟨depth, names, next, piece, hsub, hmiddle⟩ := ih
    obtain ⟨_, rest, hcallees⟩ := expandCall_ok_callees hmiddle
    obtain ⟨next, piece, hlast⟩ := hcallees last hcall
    exact ⟨rest, middle.name :: names, next, piece, List.subset_cons_of_subset _ hsub, hlast⟩

/-- A function that can be expanded reaches no function that reaches itself. -/
theorem not_recursive_of_expandCall_ok {function : String} {depth next : Nat} {calls : List String}
    {routine reached : Routine} {piece : Fragment × Nat}
    (h : expandCall function room depth calls routine next = .ok piece)
    (hreach : Relation.ReflTransGen (Inlines room) routine reached) :
    ¬ Relation.TransGen (Inlines room) reached reached := by
  intro hcycle
  obtain ⟨depth, names, next, piece, _, hreached⟩ := expandCall_ok_of_reaches h hreach
  obtain ⟨_, rest, hcallees⟩ := expandCall_ok_callees hreached
  -- The cycle leads from a call inside of the function back to it, while its name is taken.
  obtain ⟨callee, hcall, hback⟩ := Relation.TransGen.head'_iff.mp hcycle
  obtain ⟨next, piece, hcallee⟩ := hcallees callee hcall
  obtain ⟨depth, inner, next, piece, hsub, hagain⟩ := expandCall_ok_of_reaches hcallee hback
  exact (expandCall_ok_callees hagain).1 (hsub List.mem_cons_self)

/-- The functions being expanded around a call of `routine`, which all lead to it. -/
structure Leading (room : Scope) (calls : List String) (routine : Routine) : Prop where
  stacked : Stacked room calls
  leads : ∀ name ∈ calls, ∃ caller, room.inlined? name = some caller ∧
    Relation.TransGen (Inlines room) caller routine

theorem Leading.nil (room : Scope) (routine : Routine) : Leading room [] routine :=
  ⟨⟨List.nodup_nil, by simp⟩, by simp⟩

theorem Leading.cons {calls : List String} {routine callee : Routine}
    (h : Leading room calls routine) (hroutine : room.inlined? routine.name = some routine)
    (hnew : routine.name ∉ calls) (hcall : Inlines room routine callee) :
    Leading room (routine.name :: calls) callee := by
  refine ⟨h.stacked.cons hroutine hnew, List.forall_mem_cons.mpr ⟨?_, ?_⟩⟩
  · exact ⟨routine, hroutine, .single hcall⟩
  · intro name hname
    obtain ⟨caller, hcaller, hleads⟩ := h.leads name hname
    exact ⟨caller, hcaller, hleads.tail hcall⟩

/-- Where an expansion finds recursion, a function that it reaches does reach itself. -/
theorem recursive_of_expandCall_error {function : String} {depth next : Nat} {calls : List String}
    {routine : Routine} {name : String} (hroutine : room.inlined? routine.name = some routine)
    (hleading : Leading room calls routine) (hdepth : room.routines.length < depth + calls.length)
    (h : expandCall function room depth calls routine next = .error (.recursiveInline name)) :
    ∃ reached, reached.name = name ∧ room.inlined? name = some reached ∧
      Relation.ReflTransGen (Inlines room) routine reached ∧
      Relation.TransGen (Inlines room) reached reached := by
  induction depth generalizing calls routine next with
  | zero =>
    have hlength := hleading.stacked.length_le
    omega
  | succ depth ih =>
    rw [expandCall] at h
    split at h
    · next hmem =>
      obtain rfl := CompileError.recursiveInline.inj (Except.error.inj h)
      obtain ⟨caller, hcaller, hleads⟩ := hleading.leads _ hmem
      obtain rfl := Option.some.inj (hcaller.symm.trans hroutine)
      exact ⟨caller, rfl, hroutine, .refl, hleads⟩
    · next hnew =>
      rcases bind_eq_error_iff.mp h with hbody | ⟨body, _, hrest⟩
      · obtain ⟨callee, hcall, next, herror⟩ :=
          (body_asks room function true routine next).recursion hbody
        obtain ⟨reached, hname, hreached, hreach, hcycle⟩ := ih (Inlines.inlined? hcall)
          (hleading.cons hroutine hnew hcall) (by rw [List.length_cons]; omega) herror
        exact ⟨reached, hname, hreached, .head hcall hreach, hcycle⟩
      · exact absurd hrest (by simp)

end

/-! ## Expansions under watch -/

/-- The code of an inlined function at a call, like `expandCall`. It goes astray where the functions
being expanded are not all different inlined functions of the room, and where `depth` is used up. -/
def expandWatched (astray : Expansion) (function : String) (room : Scope) :
    (depth : Nat) → (calls : List String) → Expansion
  | 0, _, routine, next => astray routine next
  | depth + 1, calls, routine, next =>
    if routine.name ∈ calls then .error (.recursiveInline routine.name)
    else if ¬ Stacked room (routine.name :: calls) then astray routine next
    else do
      let expand := expandWatched astray function room depth (routine.name :: calls)
      let body ← compileStmt ⟨function, true, expand⟩ routine.body (room.push .function) next
      .ok (body.code.settle (.ofBody body.code.length), body.next)

/-- Compiles a function whose calls are expanded by `expand`. -/
def compileWith (expand : Expansion) (room : Scope) (routine : Routine) :
    Except CompileError Listing := do
  let setting : Setting := ⟨routine.name, false, expand⟩
  let body ← compileStmt setting routine.body (room.push .function) 0
  match Fragment.link? (body.code ++ [.stop]) with
  | some instrs => .ok ⟨instrs, body.next⟩
  | none => .error (.danglingJump routine.name)

section

variable {room : Scope}

/-- An expansion goes astray nowhere, and takes no more than one step for each function. -/
theorem expandWatched_eq (astray : Expansion) (function : String) {depth bound next : Nat}
    {calls : List String} {routine : Routine} (hroutine : room.inlined? routine.name = some routine)
    (hstacked : Stacked room calls) (hdepth : room.routines.length < depth + calls.length)
    (hbound : room.routines.length < bound + calls.length) :
    expandWatched astray function room depth calls routine next =
      expandCall function room bound calls routine next := by
  have hlength := hstacked.length_le
  induction depth generalizing bound calls routine next with
  | zero => omega
  | succ depth ih =>
    cases bound with
    | zero => omega
    | succ bound =>
      rw [expandWatched, expandCall]
      split
      · rfl
      · next hnew =>
        have hcons := hstacked.cons hroutine hnew
        rw [if_neg (not_not.mpr hcons)]
        have hagree : ∀ callee ∈ calleesOfStmt routine.body room.inlined?,
            expandWatched astray function room depth (routine.name :: calls) callee =
              expandCall function room bound (routine.name :: calls) callee := by
          intro callee hcall
          funext next
          refine ih (Inlines.inlined? hcall) hcons ?_ ?_ hcons.length_le <;>
            rw [List.length_cons] <;> omega
        have hbody := (body_asks room function true routine next).congr hagree
        simp only [hbody]

theorem compileWith_eq (astray : Expansion) {depth : Nat} (hdepth : room.routines.length < depth)
    (routine : Routine) :
    compileWith (expandWatched astray routine.name room depth []) room routine =
      compileListing room routine := by
  have hagree : ∀ callee ∈ calleesOfStmt routine.body room.inlined?,
      expandWatched astray routine.name room depth [] callee =
        expandCall routine.name room (room.routines.length + 1) [] callee := by
    intro callee hcall
    funext next
    exact expandWatched_eq astray routine.name (Inlines.inlined? hcall)
      (Leading.nil room callee).stacked hdepth (Nat.lt_succ_self _)
  have hbody := (body_asks room routine.name false routine 0).congr hagree
  simp only [compileWith, hbody]
  rfl

end

/-! ## Functions of a room -/

section

variable {room : Scope} {routine : Routine}

/-- Encoding is no place to find recursion. -/
theorem encode_avoids_recursion (function : String) (instrs : List (Instr Nat)) :
    Avoids CompileError.IsRecursion (encode function instrs) :=
  encode_avoids_unless_jumps id id instrs

theorem not_recursive_of_compileListing_ok {listing : Listing}
    (h : compileListing room routine = .ok listing) {reached : Routine}
    (hreach : Relation.TransGen (Inlines room) routine reached) :
    ¬ Relation.TransGen (Inlines room) reached reached := by
  obtain ⟨body, hbody, _⟩ := compileListing_ok h
  obtain ⟨callee, hcall, hrest⟩ := Relation.TransGen.head'_iff.mp hreach
  obtain ⟨next, piece, hcallee⟩ :=
    ((body_asks room routine.name false routine 0).ok hbody).2 callee hcall
  exact not_recursive_of_expandCall_ok hcallee hrest

theorem recursive_of_compileListing_error {name : String}
    (h : compileListing room routine = .error (.recursiveInline name)) :
    ∃ reached, reached.name = name ∧ room.inlined? name = some reached ∧
      Relation.TransGen (Inlines room) routine reached ∧
      Relation.TransGen (Inlines room) reached reached := by
  rcases bind_eq_error_iff.mp h with hbody | ⟨body, _, hlink⟩
  · obtain ⟨callee, hcall, next, herror⟩ :=
      (body_asks room routine.name false routine 0).recursion hbody
    obtain ⟨reached, hname, hreached, hreach, hcycle⟩ :=
      recursive_of_expandCall_error (Inlines.inlined? hcall) (.nil room callee)
        (Nat.lt_succ_self _) herror
    exact ⟨reached, hname, hreached, .head' hcall hreach, hcycle⟩
  · split at hlink <;> exact absurd hlink (by simp)

end

/-- A function compiles alike however deep calls may be expanded, beyond the number of the room's
functions, and nothing depends on what would happen where the names of the functions being expanded
were not different names of inlined functions of the room. Its calls reach no recursion if it
compiles, and the function that a failure names if recursion is found. -/
theorem inlining_ends_and_finds_recursion (room : Scope) (routine : Routine) :
    (∀ (astray : Expansion) (depth : Nat), room.routines.length < depth →
      compileWith (expandWatched astray routine.name room depth []) room routine =
        compileListing room routine) ∧
    (∀ code, compileBytes room routine = .ok code →
      ∀ reached, Relation.TransGen (Inlines room) routine reached →
        ¬ Relation.TransGen (Inlines room) reached reached) ∧
    ∀ name, compileBytes room routine = .error (.recursiveInline name) →
      ∃ reached ∈ room.routines, reached.isInlined = true ∧ reached.name = name ∧
        Relation.TransGen (Inlines room) routine reached ∧
        Relation.TransGen (Inlines room) reached reached := by
  refine ⟨fun astray depth hdepth => compileWith_eq astray hdepth routine, ?_, ?_⟩
  · intro code hcode reached hreach
    obtain ⟨listing, hlisting, _⟩ := bind_eq_ok_iff.mp hcode
    exact not_recursive_of_compileListing_ok hlisting hreach
  · intro name herror
    rcases bind_eq_error_iff.mp herror with hlisting | ⟨listing, _, hencode⟩
    · obtain ⟨reached, hname, hreached, hreach, hcycle⟩ :=
        recursive_of_compileListing_error hlisting
      obtain ⟨hresolve, hinlined⟩ := Scope.inlined?_eq_some_iff.mp hreached
      exact ⟨reached, (Scope.mem_routines_of_resolve? hresolve).1, hinlined, hname, hreach, hcycle⟩
    · exact absurd trivial (encode_avoids_recursion _ _ _ hencode)

/-- A function that calls others, one after the other. -/
def gesture (kind : RoutineKind) (name : String) (callees : List String) : Routine where
  name
  kind
  body := .block 1 (callees.map fun callee => .eval 1 (.call callee []))
  line := 1

/-- The first greeting calls two functions that both call a third one; the second greeting calls one
of two functions that call each other. -/
def greetings : Scope :=
  .ofRoom [] [gesture .inlined "bow" ["blink"], gesture .inlined "nod" ["blink"],
    gesture .inlined "blink" [], gesture .inlined "wave" ["shake"],
    gesture .inlined "shake" ["bow", "wave"]]

theorem greetings_find_recursion :
    (∀ astray : Expansion,
      compileWith (expandWatched astray "meet" greetings 6 []) greetings
          (gesture .normal "meet" ["bow", "shake"]) =
        compileListing greetings (gesture .normal "meet" ["bow", "shake"])) ∧
    (compileBytes greetings (gesture .normal "pass" ["bow", "nod"]) = .ok [0x40] ∧
      ∀ reached,
        Relation.TransGen (Inlines greetings) (gesture .normal "pass" ["bow", "nod"]) reached →
          ¬ Relation.TransGen (Inlines greetings) reached reached) ∧
    compileBytes greetings (gesture .normal "meet" ["bow", "shake"]) =
        .error (.recursiveInline "shake") ∧
      ∃ reached ∈ greetings.routines, reached.isInlined = true ∧ reached.name = "shake" ∧
        Relation.TransGen (Inlines greetings) (gesture .normal "meet" ["bow", "shake"]) reached ∧
        Relation.TransGen (Inlines greetings) reached reached := by
  have hpass : compileBytes greetings (gesture .normal "pass" ["bow", "nod"]) = .ok [0x40] := by
    decide +kernel
  have hmeet : compileBytes greetings (gesture .normal "meet" ["bow", "shake"]) =
      .error (.recursiveInline "shake") := by
    decide +kernel
  refine ⟨fun astray => ?_, ⟨hpass, ?_⟩, hmeet, ?_⟩
  · exact (inlining_ends_and_finds_recursion greetings _).1 astray 6 (by decide +kernel)
  · exact (inlining_ends_and_finds_recursion greetings _).2.1 _ hpass
  · exact (inlining_ends_and_finds_recursion greetings _).2.2 _ hmeet

end RoomForge.Code
