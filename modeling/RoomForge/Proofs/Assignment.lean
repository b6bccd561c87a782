import Mathlib.Data.List.Nodup
import RoomForge.Proofs.Allotments
import RoomForge.Proofs.Relocation

set_option autoImplicit false

/-! # Variables are assigned before they are read

In front of each instruction of a function some slots are ready: whichever way leads there, it has
stored to them. The slots are found along with the code, as those of the variables that are known
where the code is emitted. A jump leads to a place that knows no variable that is not known in front
of the jump, so what is ready at a place is ready in front of all that leads there or is stored just
before. No run of the machine has to be looked at for this, and none of its tests.

`variables_are_apart_and_assigned` is the result (specification, section 4.3, locals): variables get
slots of their own, a function is refused for them exactly if there are more than 256, and no slot
is read before it is written. The section says of slots only that they are not reused.
-/

namespace RoomForge.Code

open RoomForge.Script

/-! ## Slots that are ready -/

/-- For each instruction the slots that are ready in front of it. -/
abbrev Readiness := List (List UInt8)

/-- The slots that are ready in front of the instruction at `index`. -/
def readyAt (ready : Readiness) (index : Nat) : List UInt8 :=
  ready[index]?.getD []

/-- An instruction that reads a slot finds it ready, and what is ready behind an instruction was so
in front of it or is what it stores. -/
structure Cautious (ready : Readiness) (index : Nat) (instr : Instr Nat) : Prop where
  loads : ∀ slot, instr = .loadLocal slot → slot ∈ readyAt ready index
  flow : ∀ next ∈ instr.successors index, ∀ slot ∈ readyAt ready next,
    slot ∈ readyAt ready index ∨ instr = .storeLocal slot

theorem Cautious.jump {ready : Readiness} {index target : Nat}
    (h : readyAt ready target ⊆ readyAt ready index) : Cautious ready index (.jump target) where
  loads slot hload := absurd hload (by simp)
  flow next hnext slot hslot := by
    obtain rfl := List.mem_singleton.mp hnext
    exact .inl (h hslot)

/-- A way through code from its first instruction to the one at `index`, behind those at the
indices `passed`. Both ways on from a test count, whatever is tested. -/
inductive Path (code : List (Instr Nat)) : (index : Nat) → (passed : List Nat) → Prop where
  | start : Path code 0 []
  | step {index next : Nat} {passed : List Nat} {instr : Instr Nat} (h : Path code index passed)
      (hinstr : code[index]? = some instr) (hnext : next ∈ instr.successors index) :
      Path code next (passed ++ [index])

/-- A slot that is ready was stored to on the way. -/
theorem Path.exists_store {code : List (Instr Nat)} {ready : Readiness}
    (hcode : Throughout code (Cautious ready) 0 code.length) (hstart : readyAt ready 0 ⊆ [])
    {index : Nat} {passed : List Nat} (h : Path code index passed) {slot : UInt8}
    (hslot : slot ∈ readyAt ready index) :
    ∃ earlier ∈ passed, code[earlier]? = some (.storeLocal slot) := by
  induction h with
  | start => exact absurd (hstart hslot) List.not_mem_nil
  | @step index next passed instr _ hinstr hnext ih =>
    have hlt : index < code.length := (List.getElem?_eq_some_iff.mp hinstr).1
    have hcautious := hcode index instr (Nat.zero_le index) hlt hinstr
    rcases hcautious.flow next hnext slot hslot with hready | rfl
    · obtain ⟨earlier, hmem, hstore⟩ := ih hready
      exact ⟨earlier, List.mem_append_left _ hmem, hstore⟩
    · exact ⟨index, List.mem_append_right _ List.mem_cons_self, hinstr⟩

/-! ## Notes on fragments -/

/-- The notes on a fragment stand in those on the whole code from `start` on. -/
def Noted (ready : Readiness) (start : Nat) (notes : Readiness) : Prop :=
  ∃ front back, ready = front ++ notes ++ back ∧ front.length = start

namespace Noted

variable {ready first second : Readiness} {start : Nat}

theorem append (h : Noted ready start (first ++ second)) :
    Noted ready start first ∧ Noted ready (start + first.length) second := by
  obtain ⟨front, back, rfl, rfl⟩ := h
  constructor
  · exact ⟨front, second ++ back, by simp, rfl⟩
  · exact ⟨front ++ first, back, by simp, by simp⟩

theorem readyAt_eq {known : List UInt8} {rest : Readiness}
    (h : Noted ready start (known :: rest)) : readyAt ready start = known := by
  obtain ⟨front, back, rfl, rfl⟩ := h
  simp [readyAt]

theorem tail {known : List UInt8} {rest : Readiness} (h : Noted ready start (known :: rest)) :
    Noted ready (start + 1) rest := by
  obtain ⟨front, back, rfl, rfl⟩ := h
  exact ⟨front ++ [known], back, by simp, by simp⟩

end Noted

/-- The places that a fragment's roles stand for rely on no slots but the known ones. -/
structure Exits.Modest (exits : Exits) (ready : Readiness) (known : List UInt8) : Prop where
  loopEnd : readyAt ready exits.loopEnd ⊆ known
  loopNext : readyAt ready exits.loopNext ⊆ known
  bodyEnd : readyAt ready exits.bodyEnd ⊆ known

theorem Exits.Modest.mono {exits : Exits} {ready : Readiness} {known more : List UInt8}
    (h : exits.Modest ready known) (hmore : known ⊆ more) : exits.Modest ready more :=
  ⟨List.Subset.trans h.loopEnd hmore, List.Subset.trans h.loopNext hmore,
    List.Subset.trans h.bodyEnd hmore⟩

/-- A fragment with notes on what is ready in front of its instructions: the known slots in front of
the first, and at most those in `after` behind the last. It is cautious wherever it stands, if the
places around it rely on no more. -/
structure Secured (known after : List UInt8) (fragment : Fragment) (notes : Readiness) : Prop where
  length_eq : notes.length = fragment.length
  grows : known ⊆ after
  entry : ∀ ready start, Noted ready start notes →
    readyAt ready (start + fragment.length) ⊆ after → readyAt ready start ⊆ known
  cautious : ∀ code ready exits start, Placed code exits start fragment →
    Noted ready start notes → readyAt ready (start + fragment.length) ⊆ after →
    exits.Modest ready known →
    Throughout code (Cautious ready) start (start + fragment.length)

namespace Secured

variable {known after last : List UInt8} {first second fragment : Fragment}
  {notes firstNotes secondNotes : Readiness}

theorem nil : Secured known known [] [] where
  length_eq := rfl
  grows := List.Subset.refl known
  entry _ _ _ h := h
  cautious _ _ _ _ _ _ _ _ := fun _ _ hle hlt _ => absurd hlt (Nat.not_lt_of_le hle)

/-- An instruction that does not jump. -/
theorem single {instr : Instr Target} (htarget : instr.target? = none)
    (hload : ∀ slot, instr = .loadLocal slot → slot ∈ known) (hgrows : known ⊆ after)
    (hafter : ∀ slot ∈ after, slot ∈ known ∨ instr = .storeLocal slot) :
    Secured known after [instr] [known] where
  length_eq := rfl
  grows := hgrows
  entry ready start hnoted _ := by
    rw [hnoted.readyAt_eq]
    exact List.Subset.refl known
  cautious code ready exits start hplaced hnoted hfinish _ := by
    refine .single (Placed.cons_iff.mp hplaced).1 ⟨?_, ?_⟩
    · intro slot hslot
      rw [hnoted.readyAt_eq]
      refine hload slot ?_
      cases instr <;> simp_all [Instr.mapTarget]
    · intro next hnext slot hslot
      have hsucc : next = start + 1 := by
        cases instr <;> simp_all [Instr.mapTarget, Instr.successors, Instr.target?]
      rw [hsucc] at hslot
      rw [hnoted.readyAt_eq]
      rcases hafter slot (hfinish hslot) with hknown | rfl
      · exact .inl hknown
      · exact .inr rfl

/-- An instruction that does not jump and leaves as it is what is ready. -/
theorem plain {instr : Instr Target} (htarget : instr.target? = none)
    (hload : ∀ slot, instr = .loadLocal slot → slot ∈ known) :
    Secured known known [instr] [known] :=
  single htarget hload (List.Subset.refl known) fun _ hslot => .inl hslot

/-- A slot that is stored to is ready behind it. -/
theorem store (slot : UInt8) : Secured known (slot :: known) [.storeLocal slot] [known] := by
  refine single rfl (fun _ h => absurd h (by simp)) (List.subset_cons_self slot known) ?_
  intro other hother
  rcases List.mem_cons.mp hother with rfl | hknown
  · exact .inr rfl
  · exact .inl hknown

/-- A jump to a role. -/
theorem jump {role : Target} (hrole : ∀ distance, role ≠ .apart distance) :
    Secured known known [.jump role] [known] where
  length_eq := rfl
  grows := List.Subset.refl known
  entry ready start hnoted _ := by
    rw [hnoted.readyAt_eq]
    exact List.Subset.refl known
  cautious code ready exits start hplaced hnoted _ hexits := by
    refine .single (Placed.cons_iff.mp hplaced).1 (.jump ?_)
    rw [hnoted.readyAt_eq]
    cases role with
    | apart distance => exact absurd rfl (hrole distance)
    | loopEnd => exact hexits.loopEnd
    | loopNext => exact hexits.loopNext
    | bodyEnd => exact hexits.bodyEnd

theorem append (hfirst : Secured known after first firstNotes)
    (hsecond : Secured after last second secondNotes) :
    Secured known last (first ++ second) (firstNotes ++ secondNotes) where
  length_eq := by rw [List.length_append, List.length_append, hfirst.length_eq, hsecond.length_eq]
  grows := List.Subset.trans hfirst.grows hsecond.grows
  entry ready start hnoted hfinish := by
    obtain ⟨hnotedFirst, hnotedSecond⟩ := hnoted.append
    rw [hfirst.length_eq] at hnotedSecond
    rw [List.length_append, ← Nat.add_assoc] at hfinish
    exact hfirst.entry ready start hnotedFirst (hsecond.entry ready _ hnotedSecond hfinish)
  cautious code ready exits start hplaced hnoted hfinish hexits := by
    obtain ⟨hplacedFirst, hplacedSecond⟩ := Placed.append_iff.mp hplaced
    obtain ⟨hnotedFirst, hnotedSecond⟩ := hnoted.append
    rw [hfirst.length_eq] at hnotedSecond
    rw [List.length_append, ← Nat.add_assoc] at hfinish ⊢
    have hmiddle := hsecond.entry ready _ hnotedSecond hfinish
    exact (hfirst.cautious code ready exits start hplacedFirst hnotedFirst hmiddle hexits).append
      (hsecond.cautious code ready exits _ hplacedSecond hnotedSecond hfinish
        (hexits.mono hfirst.grows))

/-- Behind a block its own variables are not known any more. -/
theorem closed (h : Secured known after fragment notes) : Secured known known fragment notes where
  length_eq := h.length_eq
  grows := List.Subset.refl known
  entry ready start hnoted hfinish :=
    h.entry ready start hnoted (List.Subset.trans hfinish h.grows)
  cautious code ready exits start hplaced hnoted hfinish :=
    h.cautious code ready exits start hplaced hnoted (List.Subset.trans hfinish h.grows)

/-- An inlined body leaves to the place behind it. -/
theorem body (h : Secured known after fragment notes) :
    Secured known known (fragment.settle (.ofBody fragment.length)) notes where
  length_eq := by rw [h.length_eq, Fragment.length_settle]
  grows := List.Subset.refl known
  entry ready start hnoted hfinish := by
    rw [Fragment.length_settle] at hfinish
    exact h.closed.entry ready start hnoted hfinish
  cautious code ready exits start hplaced hnoted hfinish hexits := by
    rw [Fragment.length_settle] at hfinish ⊢
    exact h.closed.cautious code ready _ start hplaced.body hnoted hfinish
      ⟨hexits.loopEnd, hexits.loopNext, hfinish⟩

end Secured

/-! ## Choices and loops -/

/-- A test in front of `behind` instructions, with notes on what is ready in it. -/
structure TestSecured (known : List UInt8) (cond : Option Fragment) (behind : Nat)
    (notes : Readiness) : Prop where
  length_eq : notes.length = (loopTest cond behind).length
  entry : ∀ ready start, Noted ready start notes →
    readyAt ready (start + (loopTest cond behind).length) ⊆ known → readyAt ready start ⊆ known
  cautious : ∀ code ready exits start, Placed code exits start (loopTest cond behind) →
    Noted ready start notes →
    readyAt ready (start + (loopTest cond behind).length) ⊆ known →
    readyAt ready (start + (loopTest cond behind).length + behind) ⊆ known →
    exits.Modest ready known →
    Throughout code (Cautious ready) start (start + (loopTest cond behind).length)

section

variable {known after afterStep : List UInt8} {cond yes no body step : Fragment}
  {condNotes testNotes yesNotes noNotes bodyNotes stepNotes : Readiness}

theorem TestSecured.none {behind : Nat} : TestSecured known none behind [] where
  length_eq := rfl
  entry _ _ _ h := h
  cautious _ _ _ _ _ _ _ _ _ := fun _ _ hle hlt _ => absurd hlt (Nat.not_lt_of_le hle)

theorem TestSecured.some {behind : Nat} (h : Secured known known cond condNotes) :
    TestSecured known (some cond) behind (condNotes ++ [known]) where
  length_eq := by simp [loopTest, h.length_eq]
  entry ready start hnoted _ := by
    obtain ⟨hcond, hjump⟩ := hnoted.append
    rw [h.length_eq] at hjump
    refine h.entry ready start hcond ?_
    rw [hjump.readyAt_eq]
    exact List.Subset.refl known
  cautious code ready exits start hplaced hnoted hfinish hskip hexits := by
    obtain ⟨hcond, hjump⟩ := hnoted.append
    obtain ⟨hcondPlaced, hinstr⟩ := hplaced.loopTest_some
    rw [h.length_eq] at hjump
    have hlength : start + (loopTest (.some cond) behind).length = start + cond.length + 1 := by
      simp [loopTest, Nat.add_assoc]
    have hready := hjump.readyAt_eq
    rw [hlength] at hfinish hskip ⊢
    refine (h.cautious code ready exits start hcondPlaced hcond ?_ hexits).append
      (.single hinstr ⟨fun slot hload => absurd hload (by simp), ?_⟩)
    · rw [hready]
      exact List.Subset.refl known
    · intro next hnext slot hslot
      rw [hready]
      rcases List.mem_pair.mp hnext with rfl | rfl
      · exact .inl (hfinish hslot)
      · exact .inl (hskip hslot)

theorem Secured.choice_none (htest : TestSecured known (.some cond) yes.length testNotes)
    (hyes : Secured known after yes yesNotes) :
    Secured known known (choice cond yes none) (testNotes ++ yesNotes) where
  length_eq := by
    rw [length_choice_none, List.length_append, htest.length_eq, hyes.length_eq]
  grows := List.Subset.refl known
  entry ready start hnoted hfinish := by
    obtain ⟨hnotedTest, hnotedYes⟩ := hnoted.append
    rw [htest.length_eq] at hnotedYes
    rw [length_choice_none, ← Nat.add_assoc] at hfinish
    exact htest.entry ready start hnotedTest (hyes.closed.entry ready _ hnotedYes hfinish)
  cautious code ready exits start hplaced hnoted hfinish hexits := by
    obtain ⟨hplacedTest, hplacedYes⟩ := hplaced.choice_none
    obtain ⟨hnotedTest, hnotedYes⟩ := hnoted.append
    rw [htest.length_eq] at hnotedYes
    rw [length_choice_none, ← Nat.add_assoc] at hfinish ⊢
    have hentry := hyes.closed.entry ready _ hnotedYes hfinish
    have htestCautious :=
      htest.cautious code ready exits start hplacedTest hnotedTest hentry hfinish hexits
    exact htestCautious.append
      (hyes.closed.cautious code ready exits _ hplacedYes hnotedYes hfinish hexits)

theorem Secured.choice_some (htest : TestSecured known (.some cond) (yes.length + 1) testNotes)
    (hyes : Secured known after yes yesNotes) (hno : Secured known afterStep no noNotes) :
    Secured known known (choice cond yes (.some no))
      (testNotes ++ (yesNotes ++ (known :: noNotes))) where
  length_eq := by
    simp only [length_choice_some, List.length_append, List.length_cons, htest.length_eq,
      hyes.length_eq, hno.length_eq]
    omega
  grows := List.Subset.refl known
  entry ready start hnoted _ := by
    obtain ⟨hnotedTest, hnotedRest⟩ := hnoted.append
    obtain ⟨hnotedYes, hnotedNo⟩ := hnotedRest.append
    rw [htest.length_eq] at hnotedYes hnotedNo
    rw [hyes.length_eq] at hnotedNo
    refine htest.entry ready start hnotedTest (hyes.closed.entry ready _ hnotedYes ?_)
    rw [hnotedNo.readyAt_eq]
    exact List.Subset.refl known
  cautious code ready exits start hplaced hnoted hfinish hexits := by
    obtain ⟨first, hfirst⟩ : ∃ first,
        first = start + (loopTest (.some cond) (yes.length + 1)).length := ⟨_, rfl⟩
    obtain ⟨hplacedTest, hplacedYes, hjump, hplacedNo⟩ := hplaced.choice_some hfirst rfl
    obtain ⟨hnotedTest, hnotedRest⟩ := hnoted.append
    rw [htest.length_eq, ← hfirst] at hnotedRest
    obtain ⟨hnotedYes, hnotedJump⟩ := hnotedRest.append
    rw [hyes.length_eq] at hnotedJump
    have hnotedNo := hnotedJump.tail
    have hlength : start + (choice cond yes (.some no)).length =
        first + yes.length + 1 + no.length := by
      rw [length_choice_some, hfirst]
      omega
    rw [hlength] at hfinish ⊢
    have hready := hnotedJump.readyAt_eq
    have hlast : readyAt ready (first + yes.length) ⊆ known := by
      rw [hready]
      exact List.Subset.refl known
    have hentryYes := hyes.closed.entry ready first hnotedYes hlast
    have hentryNo := hno.closed.entry ready _ hnotedNo hfinish
    have htestCautious := htest.cautious code ready exits start hplacedTest hnotedTest
      (hfirst ▸ hentryYes) (by rwa [← hfirst]) hexits
    rw [← hfirst] at htestCautious
    have hyesCautious := hyes.closed.cautious code ready exits first hplacedYes hnotedYes hlast
      hexits
    have hnoCautious := hno.closed.cautious code ready exits _ hplacedNo hnotedNo hfinish hexits
    have hjumpCautious := Throughout.single hjump (Cautious.jump (hready ▸ hfinish))
    exact ((htestCautious.append hyesCautious).append hjumpCautious).append hnoCautious

/-- A loop whose turns go on in front of it or behind its body. -/
theorem Secured.turnLoop {cond : Option Fragment} {turn : Int} {behind : Nat}
    (hbehind : behind = body.length + step.length + 1)
    (htest : TestSecured known cond behind testNotes) (hbody : Secured known after body bodyNotes)
    (hstep : Secured known afterStep step stepNotes)
    (hturn : turn = body.length ∨ turn = -((loopTest cond behind).length : Int)) :
    Secured known known (turnLoop cond body step turn)
      (testNotes ++ (bodyNotes ++ (stepNotes ++ [known]))) := by
  -- What is ready in front of the parts is known, whatever the code is.
  have hentries : ∀ (ready : Readiness) (start first : Nat),
      Noted ready start (testNotes ++ (bodyNotes ++ (stepNotes ++ [known]))) →
      first = start + (loopTest cond behind).length →
      readyAt ready start ⊆ known ∧ readyAt ready first ⊆ known ∧
        readyAt ready (first + body.length) ⊆ known ∧
        readyAt ready (first + body.length + step.length) = known := by
    intro ready start first hnoted hfirst
    obtain ⟨hnotedTest, hnotedRest⟩ := hnoted.append
    rw [htest.length_eq, ← hfirst] at hnotedRest
    obtain ⟨hnotedBody, hnotedRest⟩ := hnotedRest.append
    rw [hbody.length_eq] at hnotedRest
    obtain ⟨hnotedStep, hnotedBack⟩ := hnotedRest.append
    rw [hstep.length_eq] at hnotedBack
    have hlast := hnotedBack.readyAt_eq
    have hturned := hstep.closed.entry ready _ hnotedStep (by rw [hlast]; exact fun _ h => h)
    have hinside := hbody.closed.entry ready first hnotedBody hturned
    exact ⟨htest.entry ready start hnotedTest (hfirst ▸ hinside), hinside, hturned, hlast⟩
  refine ⟨?_, List.Subset.refl known, ?_, ?_⟩
  · simp only [length_turnLoop, List.length_append, List.length_cons, List.length_nil,
      htest.length_eq, hbody.length_eq, hstep.length_eq, hbehind]
    omega
  · intro ready start hnoted _
    exact (hentries ready start _ hnoted rfl).1
  · intro code ready exits start hplaced hnoted hfinish hexits
    obtain ⟨first, hfirst⟩ : ∃ first, first = start + (loopTest cond behind).length := ⟨_, rfl⟩
    obtain ⟨turnAt, hturnAt, hwhere⟩ : ∃ turnAt : Nat, (first : Int) + turn = turnAt ∧
        (turnAt = first + body.length ∨ turnAt = start) := by
      rcases hturn with rfl | rfl
      · exact ⟨first + body.length, rfl, .inl rfl⟩
      · exact ⟨start, by omega, .inr rfl⟩
    obtain ⟨hplacedTest, hplacedBody, hplacedStep, hback⟩ :=
      hplaced.turnLoop hbehind hfirst rfl hturnAt
    obtain ⟨hhead, hinside, hturned, hlast⟩ := hentries ready start first hnoted hfirst
    obtain ⟨hnotedTest, hnotedRest⟩ := hnoted.append
    rw [htest.length_eq, ← hfirst] at hnotedRest
    obtain ⟨hnotedBody, hnotedRest⟩ := hnotedRest.append
    rw [hbody.length_eq] at hnotedRest
    obtain ⟨hnotedStep, _⟩ := hnotedRest.append
    have hlength : start + (Code.turnLoop cond body step turn).length =
        first + body.length + step.length + 1 := by
      rw [length_turnLoop, ← hbehind, hfirst]
      omega
    rw [hlength] at hfinish ⊢
    -- The test skips what lies behind it, up to the end of the loop.
    have hskip : readyAt ready (first + behind) ⊆ known := by
      rw [hbehind, ← Nat.add_assoc, ← Nat.add_assoc]
      exact hfinish
    have hnext : readyAt ready turnAt ⊆ known := by
      rcases hwhere with rfl | rfl
      · exact hturned
      · exact hhead
    have htestCautious := htest.cautious code ready exits start hplacedTest hnotedTest
      (hfirst ▸ hinside) (hfirst ▸ hskip) hexits
    rw [← hfirst] at htestCautious
    have hbodyCautious := hbody.closed.cautious code ready _ first hplacedBody hnotedBody hturned
      ⟨hfinish, hnext, hexits.bodyEnd⟩
    have hstepCautious := hstep.closed.cautious code ready exits _ hplacedStep hnotedStep
      (by rw [hlast]; exact fun _ h => h) hexits
    have hbackCautious := Throughout.single hback (Cautious.jump (hlast ▸ hhead))
    exact ((htestCautious.append hbodyCautious).append hstepCautious).append hbackCautious

end

/-! ## The variables that a scope knows -/

namespace Scope

variable {scope : Scope} {name : String} {slot : UInt8}

/-- The slots of the variables of a scope. -/
def slots (scope : Scope) : List UInt8 :=
  scope.flatMap fun frame => frame.locals.map Prod.snd

@[simp] theorem slots_push (kind : FrameKind) : (scope.push kind).slots = scope.slots := by
  simp [slots, push]

@[simp] theorem slots_declareConst (constant : Constant) :
    (scope.declareConst constant).slots = scope.slots := by
  cases scope <;> simp [slots, declareConst]

theorem slots_declareLocal_subset (name : String) (slot : UInt8) :
    (scope.declareLocal name slot).slots ⊆ slot :: scope.slots := by
  cases scope <;> simp [slots, declareLocal]

theorem slots_ofRoom (constants : List Constant) (routines : List Routine) :
    (ofRoom constants routines).slots = [] :=
  rfl

/-- A variable found by its name is one of the scope's. -/
theorem mem_slots_of_resolve? (h : scope.resolve? name = some (.slot slot)) :
    slot ∈ scope.slots := by
  induction scope with
  | nil =>
    simp only [resolve?] at h
    split at h
    · exact absurd h (by simp)
    · obtain ⟨builtin, _, hbuiltin⟩ := Option.map_eq_some_iff.mp h
      exact absurd hbuiltin (by simp)
  | cons frame outer ih =>
    rw [slots, List.flatMap_cons, List.mem_append]
    simp only [resolve?] at h
    split at h
    · next meaning hfind =>
      obtain rfl := Option.some.inj h
      refine .inl ?_
      unfold Frame.find? at hfind
      split at hfind
      · next entry hentry =>
        obtain rfl := Meaning.slot.inj (Option.some.inj hfind)
        exact List.mem_map_of_mem (List.mem_of_find?_eq_some hentry)
      · split at hfind
        · exact absurd hfind (by simp)
        · obtain ⟨routine, _, hroutine⟩ := Option.map_eq_some_iff.mp hfind
          exact absurd hroutine (by simp)
    · exact .inr (ih h)

end Scope

/-! ## What the compiler emits -/

/-- A fragment that can be given notes. -/
def Secure (known after : List UInt8) (fragment : Fragment) : Prop :=
  ∃ notes, Secured known after fragment notes

namespace Secure

variable {known after last : List UInt8} {first second fragment : Fragment}

theorem append (hfirst : Secure known after first) (hsecond : Secure after last second) :
    Secure known last (first ++ second) := by
  obtain ⟨firstNotes, hfirst⟩ := hfirst
  obtain ⟨secondNotes, hsecond⟩ := hsecond
  exact ⟨_, hfirst.append hsecond⟩

theorem closed (h : Secure known after fragment) : Secure known known fragment := by
  obtain ⟨notes, h⟩ := h
  exact ⟨notes, h.closed⟩

theorem nil : Secure known known [] :=
  ⟨[], .nil⟩

/-- An instruction that neither jumps nor reads a slot. -/
theorem plain (instr : Instr Target) (htarget : instr.target? = none)
    (hload : ∀ slot, instr ≠ .loadLocal slot) : Secure known known [instr] :=
  ⟨_, .plain htarget fun slot hslot => absurd hslot (hload slot)⟩

theorem snoc (h : Secure known known fragment) (instr : Instr Target)
    (htarget : instr.target? = none) (hload : ∀ slot, instr ≠ .loadLocal slot) :
    Secure known known (fragment ++ [instr]) :=
  h.append (plain instr htarget hload)

/-- A test whose condition can be given notes. -/
theorem test {cond : Option Fragment} (h : ∀ test ∈ cond, Secure known known test) (behind : Nat) :
    ∃ notes, TestSecured known cond behind notes := by
  cases cond with
  | none => exact ⟨_, .none⟩
  | some test =>
    obtain ⟨notes, htest⟩ := h test rfl
    exact ⟨_, .some htest⟩

theorem choice {cond yes : Fragment} {no : Option Fragment} (hcond : Secure known known cond)
    (hyes : Secure known after yes) (hno : ∀ other ∈ no, ∃ last, Secure known last other) :
    Secure known known (choice cond yes no) := by
  have htests : ∀ test ∈ some cond, Secure known known test := by simpa using hcond
  obtain ⟨yesNotes, hyes⟩ := hyes
  cases no with
  | none =>
    obtain ⟨testNotes, htest⟩ := test htests yes.length
    exact ⟨_, .choice_none htest hyes⟩
  | some other =>
    obtain ⟨testNotes, htest⟩ := test htests (yes.length + 1)
    obtain ⟨last, noNotes, hother⟩ := hno other rfl
    exact ⟨_, .choice_some htest hyes hother⟩

theorem testLoop {cond body : Fragment} (hcond : Secure known known cond)
    (hbody : Secure known after body) : Secure known known (testLoop cond body) := by
  have htests : ∀ test ∈ some cond, Secure known known test := by simpa using hcond
  obtain ⟨bodyNotes, hbody⟩ := hbody
  obtain ⟨testNotes, htest⟩ := test htests (body.length + 1)
  rw [testLoop_eq_turnLoop]
  exact ⟨_, .turnLoop rfl htest hbody .nil (.inr rfl)⟩

theorem stepLoop {cond : Option Fragment} {body step : Fragment}
    (hcond : ∀ test ∈ cond, Secure known known test) (hbody : Secure known after body)
    (hstep : Secure known last step) : Secure known known (stepLoop cond body step) := by
  obtain ⟨bodyNotes, hbody⟩ := hbody
  obtain ⟨stepNotes, hstep⟩ := hstep
  obtain ⟨testNotes, htest⟩ := test hcond (body.length + step.length + 1)
  rw [stepLoop_eq_turnLoop]
  exact ⟨_, .turnLoop rfl htest hbody hstep (.inl rfl)⟩

end Secure

section

variable {setting : Setting} {scope : Scope} {line next : Nat} {known : List UInt8}

/-- Expansions rely on nothing that is known where they stand. -/
def Setting.Secure (setting : Setting) : Prop :=
  ∀ routine next code behind, setting.expand routine next = .ok (code, behind) →
    ∀ known, Code.Secure known known code

theorem pushName_secure (hscope : scope.slots ⊆ known) {site : Site} {name : String}
    {instr : Instr Target} (h : pushName site scope name = .ok instr) :
    Secure known known [instr] := by
  rcases pushName_ok h with ⟨value, _, hnumber⟩ | ⟨slot, hname, rfl⟩ | ⟨id, _, rfl⟩
  · obtain ⟨rfl, _⟩ := pushNumber_ok hnumber
    exact .plain _ rfl (by simp)
  · refine ⟨_, .plain rfl fun other hother => ?_⟩
    obtain rfl := Instr.loadLocal.inj hother
    exact hscope (Scope.mem_slots_of_resolve? hname)
  · exact .plain _ rfl (by simp)

/-- The code of an expression is secure if the variables of its scope are known. -/
def ExprSecure (setting : Setting) (scope : Scope) (line : Nat) (known : List UInt8)
    (expr : Expr) : Prop :=
  ∀ next compiled, compileExpr setting scope line expr next = .ok compiled →
    Secure known known compiled.code

theorem ExprSecure.value {expr : Expr} (h : ExprSecure setting scope line known expr)
    {code : Fragment} {behind : Nat}
    (hvalue : compileValue setting scope line expr next = .ok (code, behind)) :
    Secure known known code := by
  obtain ⟨compiled, hcompiled, _, rfl, _⟩ := compileValue_eq_ok_iff.mp hvalue
  exact h next compiled hcompiled

theorem compileArgs_secure {args : List Expr}
    (h : ∀ arg ∈ args, ExprSecure setting scope line known arg) {back : Fragment} {behind : Nat}
    (hargs : compileArgs setting scope line args next = .ok (back, behind)) :
    Secure known known back.reverse := by
  induction args generalizing next back with
  | nil =>
    rw [compileArgs] at hargs
    obtain ⟨rfl, rfl⟩ := Prod.mk.inj (Except.ok.inj hargs)
    exact .nil
  | cons arg rest ih =>
    obtain ⟨code, middle, restBack, harg, hrest, hback⟩ := compileArgs_cons_ok hargs
    have hfirst := (h arg List.mem_cons_self).value harg
    have hlast := ih (fun other hother => h other (List.mem_cons_of_mem arg hother)) hrest
    rw [hback]
    exact hfirst.append hlast

theorem exprSecure (hsetting : setting.Secure) (hscope : scope.slots ⊆ known) (line : Nat)
    (expr : Expr) : ExprSecure setting scope line known expr := by
  induction expr using Expr.induction with
  | int value =>
    intro next compiled h
    obtain ⟨push, hpush, rfl⟩ := compileExpr_int_ok h
    obtain ⟨rfl, _⟩ := pushNumber_ok hpush
    exact .plain _ rfl (by simp)
  | str text =>
    intro next compiled h
    obtain rfl := compileExpr_str_ok h
    exact .plain _ rfl (by simp)
  | ident name =>
    intro next compiled h
    obtain ⟨push, hpush, rfl⟩ := compileExpr_ident_ok h
    exact pushName_secure hscope hpush
  | call name args ih =>
    intro next compiled h
    rcases compileExpr_call_ok h with ⟨builtin, back, _, _, hargs, hcode, _⟩ | ⟨routine, _, hcall⟩
    · rw [hcode]
      exact (compileArgs_secure ih hargs).snoc _ rfl (by simp)
    · obtain ⟨_, _, ⟨_, hexpand⟩ | ⟨_, number, _, hcode, _⟩⟩ := callRoutine_ok hcall
      · exact hsetting routine next _ _ hexpand known
      · rw [hcode]
        exact .plain _ rfl (by simp)
  | unary op operand ih =>
    intro next compiled h
    obtain ⟨code, hvalue, hcode, _⟩ := compileExpr_unary_ok h
    rw [hcode]
    exact (ih.value hvalue).snoc _ rfl (by simp)
  | binary op left right ihLeft ihRight =>
    intro next compiled h
    obtain ⟨leftCode, middle, rightCode, hleft, hright, hcode, _⟩ := compileExpr_binary_ok h
    rw [hcode]
    exact ((ihLeft.value hleft).append (ihRight.value hright)).snoc _ rfl (by simp)

theorem compileInit_secure (hsetting : setting.Secure) (hscope : scope.slots ⊆ known)
    {init : Option Expr} {code : Fragment} {behind : Nat}
    (h : compileInit setting scope line init next = .ok (code, behind)) :
    Secure known known code := by
  cases init with
  | none =>
    obtain ⟨rfl, rfl⟩ := Prod.mk.inj (Except.ok.inj h)
    exact .plain _ rfl (by simp)
  | some init => exact (exprSecure hsetting hscope line init).value h

theorem compileCond_secure (hsetting : setting.Secure) (hscope : scope.slots ⊆ known)
    {cond : Option Expr} {code : Option Fragment} {behind : Nat}
    (h : compileCond setting scope line cond next = .ok (code, behind)) :
    ∀ test ∈ code, Secure known known test := by
  intro test htest
  rcases compileCond_ok h with ⟨rfl, rfl, rfl⟩ | ⟨expr, fragment, rfl, rfl, hvalue⟩
  · exact absurd htest (by simp)
  · obtain rfl := Option.some.inj htest
    exact (exprSecure hsetting hscope line expr).value hvalue

/-- The code of a statement is secure if the variables of its scope are known, and behind it those
of the scope behind it are. -/
def StmtSecure (setting : Setting) (stmt : Stmt) : Prop :=
  ∀ scope next compiled known, scope.slots ⊆ known →
    compileStmt setting stmt scope next = .ok compiled →
    ∃ after, Secure known after compiled.code ∧ compiled.scope.slots ⊆ after

theorem compileStmts_secure {body : List Stmt} (h : ∀ stmt ∈ body, StmtSecure setting stmt)
    (hscope : scope.slots ⊆ known) {compiled : StmtCode}
    (hbody : compileStmts setting body scope next [] = .ok compiled) :
    ∃ after, Secure known after compiled.code := by
  induction body generalizing scope next compiled known with
  | nil =>
    rw [compileStmts] at hbody
    obtain rfl := Except.ok.inj hbody
    exact ⟨known, .nil⟩
  | cons stmt rest ih =>
    obtain ⟨first, tail, hfirst, htail, rfl⟩ := compileStmts_cons_ok hbody
    obtain ⟨middle, hhead, hmiddle⟩ :=
      h stmt List.mem_cons_self scope next first known hscope hfirst
    obtain ⟨after, hrest⟩ :=
      ih (fun other hother => h other (List.mem_cons_of_mem stmt hother)) hmiddle htail
    exact ⟨after, hhead.append hrest⟩

theorem compileOptional_secure {choice : Option Stmt}
    (h : ∀ stmt ∈ choice, StmtSecure setting stmt) (hscope : scope.slots ⊆ known)
    {code : Option Fragment} {compiled : StmtCode}
    (hchoice : compileOptional setting choice scope next = .ok (code, compiled)) :
    ∃ after, Secure known after (code.getD []) ∧ compiled.scope.slots ⊆ after := by
  cases choice with
  | none =>
    obtain ⟨rfl, rfl⟩ := compileOptional_none_ok hchoice
    exact ⟨known, .nil, hscope⟩
  | some stmt =>
    obtain ⟨hstmt, rfl⟩ := compileOptional_some_ok hchoice
    exact h stmt rfl scope next compiled known hscope hstmt

/-- The code of a statement reads no variable that is not known, and knows those that it
declares. -/
theorem stmtSecure (hsetting : setting.Secure) (stmt : Stmt) : StmtSecure setting stmt := by
  induction stmt using Stmt.induction with
  | block line body ih =>
    intro scope next compiled known hscope h
    obtain ⟨inner, hinner, rfl⟩ := compileStmt_block_ok h
    obtain ⟨after, hcode⟩ := compileStmts_secure ih (by simpa using hscope) hinner
    exact ⟨known, hcode.closed, hscope⟩
  | var line name init =>
    intro scope next compiled known hscope h
    obtain ⟨slot, code, behind, _, hinit, rfl⟩ := compileStmt_var_ok h
    have hcode := compileInit_secure hsetting hscope hinit
    refine ⟨slot :: known, hcode.append ⟨_, .store slot⟩, ?_⟩
    exact List.Subset.trans (Scope.slots_declareLocal_subset name slot)
      (List.cons_subset_cons slot hscope)
  | const line name value =>
    intro scope next compiled known hscope h
    obtain rfl := compileStmt_const_ok h
    exact ⟨known, .nil, by simpa using hscope⟩
  | assign line name value =>
    intro scope next compiled known hscope h
    obtain ⟨store, code, behind, hstore, hvalue, rfl⟩ := compileStmt_assign_ok h
    have hcode := (exprSecure hsetting hscope line value).value hvalue
    refine ⟨known, ?_, hscope⟩
    rcases storeName_ok hstore with ⟨slot, _, rfl⟩ | ⟨id, _, rfl⟩
    · exact hcode.snoc _ rfl (by simp)
    · exact hcode.snoc _ rfl (by simp)
  | eval line expr =>
    intro scope next compiled known hscope h
    obtain ⟨inner, hinner, rfl⟩ := compileStmt_eval_ok h
    have hcode := exprSecure hsetting hscope line expr next inner hinner
    refine ⟨known, ?_, hscope⟩
    dsimp only
    split
    · exact hcode.snoc .pop rfl (by simp)
    · rwa [List.append_nil]
  | ifElse line cond yes no ihYes ihNo =>
    intro scope next compiled known hscope h
    obtain ⟨condCode, middle, yesCode, noCode, last, hcond, hyes, hno, rfl⟩ :=
      compileStmt_ifElse_ok h
    have hinside : (scope.push .block).slots ⊆ known := by simpa using hscope
    have hcondCode := (exprSecure hsetting hscope line cond).value hcond
    obtain ⟨after, hyesCode, _⟩ := ihYes _ _ _ known hinside hyes
    obtain ⟨afterNo, hnoCode, _⟩ := compileOptional_secure ihNo hinside hno
    refine ⟨known, hcondCode.choice hyesCode ?_, hscope⟩
    rintro other rfl
    exact ⟨afterNo, hnoCode⟩
  | whileLoop line cond body ih =>
    intro scope next compiled known hscope h
    obtain ⟨condCode, middle, bodyCode, hcond, hbody, rfl⟩ := compileStmt_whileLoop_ok h
    have hcondCode := (exprSecure hsetting hscope line cond).value hcond
    obtain ⟨after, hbodyCode, _⟩ := ih _ _ _ known (by simpa using hscope) hbody
    exact ⟨known, hcondCode.testLoop hbodyCode, hscope⟩
  | forLoop line init cond step body ihInit ihStep ihBody =>
    intro scope next compiled known hscope h
    obtain ⟨initCode, head, condLine, condCode, middle, bodyCode, stepCode, last, hinit, hcond,
      hbody, hstep, rfl⟩ := compileStmt_forLoop_ok h
    obtain ⟨inside, hinitCode, hhead⟩ := compileOptional_secure ihInit (by simpa using hscope) hinit
    have hcondCode := compileCond_secure hsetting hhead hcond
    obtain ⟨after, hbodyCode, _⟩ := ihBody _ _ _ inside (by simpa using hhead) hbody
    obtain ⟨afterStep, hstepCode, _⟩ := compileOptional_secure ihStep hhead hstep
    have hloop := Secure.stepLoop hcondCode hbodyCode hstepCode
    exact ⟨known, (hinitCode.append hloop).closed, hscope⟩
  | breakLoop line =>
    intro scope next compiled known hscope h
    obtain ⟨_, rfl⟩ := compileStmt_breakLoop_ok h
    exact ⟨known, ⟨_, .jump (by simp)⟩, hscope⟩
  | continueLoop line =>
    intro scope next compiled known hscope h
    obtain ⟨_, rfl⟩ := compileStmt_continueLoop_ok h
    exact ⟨known, ⟨_, .jump (by simp)⟩, hscope⟩
  | leave line =>
    intro scope next compiled known hscope h
    obtain rfl := compileStmt_leave_ok h
    refine ⟨known, ?_, hscope⟩
    dsimp only
    split
    · exact ⟨_, .jump (by simp)⟩
    · exact .plain _ rfl (by simp)

end

/-! ## Functions -/

section

variable {room : Scope} {routine : Routine}

/-- An inlined body, which knows no variables but its own, is secure wherever it stands. -/
theorem expandCall_secure (hroom : room.slots = []) (function : String) (depth : Nat)
    (calls : List String) (inlined : Bool) :
    Setting.Secure ⟨function, inlined, expandCall function room depth calls⟩ := by
  induction depth generalizing calls inlined with
  | zero =>
    intro routine next code behind h
    obtain ⟨_, _, hdepth, _⟩ := expandCall_ok h
    exact absurd hdepth (by simp)
  | succ depth ih =>
    intro routine next code behind h known
    obtain ⟨rest, inner, hdepth, _, hinner, rfl, _⟩ := expandCall_ok h
    obtain rfl := Nat.succ.inj hdepth
    obtain ⟨after, ⟨notes, hcode⟩, _⟩ :=
      stmtSecure (ih (routine.name :: calls) true) routine.body _ _ _ known (by simp [hroom]) hinner
    exact ⟨notes, hcode.body⟩

/-- The code of a function can be given notes: nothing is ready in front of it. -/
theorem compileListing_cautious (hroom : room.slots = []) {listing : Listing}
    (h : compileListing room routine = .ok listing) :
    ∃ ready, readyAt ready 0 ⊆ [] ∧
      Throughout listing.instrs (Cautious ready) 0 listing.instrs.length := by
  obtain ⟨body, hbody, hlink, _⟩ := compileListing_ok h
  have hsetting : (Setting.ofRoutine room routine).Secure :=
    expandCall_secure hroom routine.name (room.routines.length + 1) [] false
  obtain ⟨after, hcode, _⟩ :=
    stmtSecure hsetting routine.body _ _ _ [] (by simp [hroom]) hbody
  obtain ⟨notes, hwhole⟩ := hcode.closed.snoc .stop rfl (by simp)
  have hnoted : Noted notes 0 notes := ⟨[], [], by simp, rfl⟩
  have hlength : listing.instrs.length = notes.length := by
    rw [length_link? hlink, hwhole.length_eq]
  -- Nothing is noted behind the code, so that is where the roles that it does not have may go.
  have hbehind : readyAt notes notes.length ⊆ [] := by simp [readyAt]
  have hfinish : readyAt notes (0 + (body.code ++ [Instr.stop]).length) ⊆ [] := by
    rwa [Nat.zero_add, ← hwhole.length_eq]
  obtain ⟨exits, hexits⟩ : ∃ exits : Exits, exits.Modest notes [] :=
    ⟨⟨_, _, _⟩, hbehind, hbehind, hbehind⟩
  refine ⟨notes, hwhole.entry notes 0 hnoted hfinish, ?_⟩
  have hcautious := hwhole.cautious listing.instrs notes exits 0 (placed_of_link? exits hlink)
    hnoted hfinish hexits
  rwa [Nat.zero_add, ← hwhole.length_eq, ← hlength] at hcautious

/-- A function uses no slots but those that its variables have taken. -/
theorem compileListing_slots (hroom : ∀ frame ∈ room, frame.locals = []) {listing : Listing}
    (h : compileListing room routine = .ok listing) {instr : Instr Nat}
    (hinstr : instr ∈ listing.instrs) {slot : UInt8} (hslot : slot ∈ instr.slot?) :
    slot.toNat < listing.locals := by
  obtain ⟨body, hbody, hlink, hlocals⟩ := compileListing_ok h
  have hsetting : SettingsMoved 0 0 (.ofRoutine room routine) (.ofRoutine room routine) :=
    ⟨rfl, fun callee taken piece piece' hpiece hpiece' =>
      (expandCall_moved hroom _ _ _ _ _ _ callee _ _ piece piece' hpiece hpiece').nested⟩
  -- The code is related to itself, which bounds its slots by what is taken behind it.
  obtain ⟨more, _, hmore, _, hmoved, _⟩ := stmtMoves hsetting routine.body _ _ 0
    ((ScopesMoved.room hroom).push .function) body body hbody hbody
  have hwhole : CodeMoved 0 0 more (body.code ++ [.stop]) (body.code ++ [.stop]) :=
    List.rel_append hmoved (.cons (.same _ rfl) .nil)
  obtain ⟨index, hindex⟩ := List.mem_iff_getElem?.mp hinstr
  obtain ⟨source, hsource, rfl⟩ := exists_source_of_link? default hlink hindex
  have hrel := rel_getElem? hwhole index
  rw [hsource] at hrel
  rw [Instr.slot?_mapTarget] at hslot
  cases hrel with
  | some hsame =>
    obtain ⟨offset, hoffset, heq, _⟩ := hsame.slots hslot
    omega

/-- A function is refused for its variables just if there are too many of them. -/
theorem compileBytes_eq_tooManyLocals_iff (room : Scope) (routine : Routine) :
    compileBytes room routine = .error (.tooManyLocals routine.name) ↔
      256 < (allotments room routine).length := by
  have haccount := (allotments_account room routine).refused
  rw [Nat.zero_add] at haccount
  rw [← haccount, compileBytes, bind_eq_error_iff, compileListing, bind_eq_error_iff]
  constructor
  · rintro ((hbody | ⟨body, _, hlink⟩) | ⟨listing, _, hencode⟩)
    · exact hbody
    · split at hlink
      · exact absurd hlink (by simp)
      · exact absurd hlink (by simp)
    · have havoids : Avoids (· = .tooManyLocals routine.name)
          (encode routine.name listing.instrs) :=
        encode_avoids_unless_jumps (by simp) (by simp) listing.instrs
      exact absurd rfl (havoids _ hencode)
  · intro hbody
    exact .inl (.inl hbody)

end

/-- The variables of a function have slots of their own, and none is read before it is assigned. -/
structure KeepsApart (vars : List Allotment) (listing : Listing) : Prop where
  counted : listing.locals = vars.length
  fits : vars.length ≤ 256
  /-- The slots are given out one by one, from the first on. -/
  ordered : vars.map (·.slot.map UInt8.toNat) = (List.range vars.length).map some
  /-- None is given twice. -/
  distinct : (vars.map (·.slot)).Nodup
  /-- The code uses no others. -/
  used : ∀ instr ∈ listing.instrs, ∀ slot ∈ instr.slot?, slot.toNat < vars.length
  /-- Every way to an instruction that reads a slot has stored to it before. -/
  assigned : ∀ (index : Nat) (passed : List Nat) (slot : UInt8),
    Path listing.instrs index passed → listing.instrs[index]? = some (.loadLocal slot) →
    ∃ earlier ∈ passed, listing.instrs[earlier]? = some (.storeLocal slot)

/-- The variables of a function and of the functions inlined in it take the slots of one frame in
the order in which they are compiled, each its own, and are assigned before they are read. A
function that has too many of them for a frame is refused. -/
theorem variables_are_apart_and_assigned (constants : List Constant) (routines : List Routine)
    (routine : Routine) :
    (compileBytes (.ofRoom constants routines) routine =
        .error (.tooManyLocals routine.name) ↔
      256 < (allotments (.ofRoom constants routines) routine).length) ∧
    ∀ listing, compileListing (.ofRoom constants routines) routine = .ok listing →
      KeepsApart (allotments (.ofRoom constants routines) routine) listing := by
  refine ⟨compileBytes_eq_tooManyLocals_iff _ routine, fun listing hlisting => ?_⟩
  obtain ⟨body, hbody, _, hlocals⟩ := compileListing_ok hlisting
  have haccount := allotments_account (.ofRoom constants routines) routine
  have hcounted := haccount.taken body hbody
  rw [Nat.zero_add, ← hlocals] at hcounted
  have hordered := haccount.slots body hbody
  rw [← List.range_eq_range'] at hordered
  obtain ⟨ready, hstart, hcautious⟩ :=
    compileListing_cautious (Scope.slots_ofRoom constants routines) hlisting
  refine ⟨hcounted, ?_, hordered, ?_, ?_, ?_⟩
  · rw [← hcounted, hlocals]
    exact haccount.taken_le hbody
  · refine List.Nodup.of_map (Option.map UInt8.toNat) ?_
    rw [List.map_map]
    exact hordered ▸ List.nodup_range.map fun _ _ h => Option.some.inj h
  · intro instr hinstr slot hslot
    rw [← hcounted]
    exact compileListing_slots (by simp [Scope.ofRoom]) hlisting hinstr hslot
  · intro index passed slot hpath hload
    have hlt : index < listing.instrs.length := (List.getElem?_eq_some_iff.mp hload).1
    have hready := (hcautious index _ (Nat.zero_le index) hlt hload).loads slot rfl
    exact hpath.exists_store hcautious hstart hready

/-- An inlined function with a variable and a loop. -/
def tick : Routine where
  name := "tick"
  kind := .inlined
  body := .block 1 [.var 1 "n" (some (.int 2)),
    .whileLoop 2 (.ident "n") (.assign 2 "n" (.binary .sub (.ident "n") (.int 1)))]
  line := 1

/-- A function that inlines another one twice, the second time in a loop with a variable. -/
def patrol : Routine where
  name := "patrol"
  kind := .normal
  body := .block 4 [.var 5 "i" none, .eval 6 (.call "tick" []),
    .forLoop 7 (some (.var 7 "k" (some (.ident "i")))) (some (.ident "k")) none
      (.block 7 [.eval 8 (.call "tick" []), .breakLoop 9])]
  line := 4

def patrolListing : Listing where
  instrs := [.pushWord 0, .storeLocal 0, .pushWord 2, .storeLocal 1, .loadLocal 1, .jumpIfFalse 11,
    .loadLocal 1, .pushWord 1, .binary .sub, .storeLocal 1, .jump 4, .loadLocal 0, .storeLocal 2,
    .loadLocal 2, .jumpIfFalse 26, .pushWord 2, .storeLocal 3, .loadLocal 3, .jumpIfFalse 24,
    .loadLocal 3, .pushWord 1, .binary .sub, .storeLocal 3, .jump 17, .jump 26, .jump 13, .stop]
  locals := 4

theorem patrol_keeps_its_variables_apart :
    allotments (.ofRoom [] [tick]) patrol =
      [⟨5, "i", some 0⟩, ⟨1, "n", some 1⟩, ⟨7, "k", some 2⟩, ⟨1, "n", some 3⟩] ∧
    compileListing (.ofRoom [] [tick]) patrol = .ok patrolListing ∧
    KeepsApart (allotments (.ofRoom [] [tick]) patrol) patrolListing ∧
    Path patrolListing.instrs 11 [0, 1, 2, 3, 4, 5] ∧
    ∃ earlier ∈ [0, 1, 2, 3, 4, 5], patrolListing.instrs[earlier]? = some (.storeLocal 0) := by
  have hlisting : compileListing (.ofRoom [] [tick]) patrol = .ok patrolListing := by
    decide +kernel
  have happly := (variables_are_apart_and_assigned [] [tick] patrol).2 patrolListing hlisting
  have hdeclared : Path patrolListing.instrs 4 [0, 1, 2, 3] :=
    .step (.step (.step (.step .start rfl (by decide)) rfl (by decide)) rfl (by decide)) rfl
      (by decide)
  -- The loop of the first call is left at once.
  have hpath : Path patrolListing.instrs 11 [0, 1, 2, 3, 4, 5] :=
    .step (.step hdeclared rfl (by decide)) rfl (by decide)
  exact ⟨by decide +kernel, hlisting, happly, hpath, happly.assigned 11 _ 0 hpath rfl⟩

end RoomForge.Code
