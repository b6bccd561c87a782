import RoomForge.Proofs.OnePass

set_option autoImplicit false

/-! # Filling in targets

How the pieces of code that statements are made of look in a draft while they are being written, and
what filling in their targets makes of them. `Draft.extend` is the one description of a piece that
has been written: its instructions lie behind those of the draft, and its jumps to open roles are
among those that wait. Each way to write a piece has a lemma that ends in `_eq_extend` or `_extend`.
-/

namespace RoomForge.Code

/-! ## Fragments in drafts -/

/-- A fragment as instructions from the index `start` on, where `exits` are the places of its open
roles. -/
def lay (exits : Exits) : (start : Nat) → Fragment → List (Instr Nat)
  | _, [] => []
  | start, instr :: rest => instr.mapTarget (Target.place exits start) :: lay exits (start + 1) rest

/-- The places of the jumps to a role in a fragment at `start`. -/
def openJumps (role : Target) : (start : Nat) → Fragment → List Nat
  | _, [] => []
  | start, instr :: rest =>
    if instr.target? = some role then start :: openJumps role (start + 1) rest
    else openJumps role (start + 1) rest

/-- No role has its place yet. -/
def holes : Exits :=
  ⟨unpatched, unpatched, unpatched⟩

/-- A draft with a fragment written behind it. -/
def Draft.extend (draft : Draft) (fragment : Fragment) (next : Nat) : Draft where
  instrs := draft.instrs ++ lay holes draft.here fragment
  next := next
  line := draft.line
  loops := draft.loops.modifyHead fun jumps =>
    ⟨jumps.breaks ++ openJumps .loopEnd draft.here fragment,
      jumps.continues ++ openJumps .loopNext draft.here fragment⟩
  bodies := draft.bodies.modifyHead fun jumps =>
    { jumps with returns := jumps.returns ++ openJumps .bodyEnd draft.here fragment }

section

variable {exits : Exits} {role : Target} {start : Nat}

@[simp] theorem length_lay (fragment : Fragment) :
    (lay exits start fragment).length = fragment.length := by
  induction fragment generalizing start with
  | nil => rfl
  | cons instr rest ih => rw [lay, List.length_cons, ih, List.length_cons]

theorem getElem?_lay (fragment : Fragment) (index : Nat) :
    (lay exits start fragment)[index]? =
      fragment[index]?.map fun instr => instr.mapTarget (Target.place exits (start + index)) := by
  induction fragment generalizing start index with
  | nil => rfl
  | cons instr rest ih =>
    cases index with
    | zero => rfl
    | succ index =>
      rw [lay, List.getElem?_cons_succ, List.getElem?_cons_succ, ih, Nat.add_assoc,
        Nat.add_comm 1 index]

theorem lay_append (first second : Fragment) :
    lay exits start (first ++ second) =
      lay exits start first ++ lay exits (start + first.length) second := by
  induction first generalizing start with
  | nil => rfl
  | cons instr rest ih =>
    rw [List.cons_append, lay, ih, lay, List.cons_append, List.length_cons]
    congr 3
    omega

theorem openJumps_append (first second : Fragment) :
    openJumps role start (first ++ second) =
      openJumps role start first ++ openJumps role (start + first.length) second := by
  induction first generalizing start with
  | nil => rfl
  | cons instr rest ih =>
    have hstart : start + 1 + rest.length = start + (instr :: rest).length := by
      rw [List.length_cons]
      omega
    rw [List.cons_append, openJumps, openJumps, ih, hstart]
    split
    · rfl
    · rfl

/-- A jump is still open behind settling if it was open before and its role has no place. -/
theorem Target.settle_eq_role_iff {places : Places} {target : Target} {index : Int}
    (hrole : ∀ distance, role ≠ .apart distance) :
    target.settle places index = role ↔ target = role ∧ places role = none := by
  unfold Target.settle
  split
  · next place hplace =>
    refine iff_of_false (hrole _).symm ?_
    rintro ⟨rfl, hnone⟩
    rw [hnone] at hplace
    exact absurd hplace (by simp)
  · next hnone =>
    constructor
    · rintro rfl
      exact ⟨rfl, hnone⟩
    · exact And.left

theorem openJumps_mapIdx {open? : Bool} {f : Nat → Instr Target → Instr Target}
    (h : ∀ index instr, (f index instr).target? = some role ↔
      instr.target? = some role ∧ open? = true) (fragment : Fragment) :
    openJumps role start (fragment.mapIdx f) =
      if open? then openJumps role start fragment else [] := by
  induction fragment generalizing f start with
  | nil => cases open? <;> rfl
  | cons instr rest ih =>
    rw [List.mapIdx_cons, openJumps, openJumps, ih fun index => h (index + 1)]
    have hhead := h 0 instr
    cases open? with
    | true => simp [hhead]
    | false => simp [hhead]

/-- Settled jumps are no longer open, and others stay as they are. -/
theorem openJumps_settle {places : Places} (hrole : ∀ distance, role ≠ .apart distance)
    (fragment : Fragment) :
    openJumps role start (fragment.settle places) =
      if (places role).isNone then openJumps role start fragment else [] := by
  refine openJumps_mapIdx (fun index instr => ?_) fragment
  rw [Instr.target?_mapTarget, Option.map_eq_some_iff, Option.isNone_iff_eq_none]
  constructor
  · rintro ⟨target, htarget, hsettled⟩
    obtain ⟨rfl, hnone⟩ := (Target.settle_eq_role_iff hrole).mp hsettled
    exact ⟨htarget, hnone⟩
  · rintro ⟨htarget, hnone⟩
    exact ⟨role, htarget, (Target.settle_eq_role_iff hrole).mpr ⟨rfl, hnone⟩⟩

/-- A settled fragment lies as the fragment does with the places that it settles. -/
theorem lay_settle {places : Places} {inside : Exits} {fragment : Fragment}
    (h : ∀ (target : Target) (index : Nat),
      (target.settle places index).place exits (start + index) =
        target.place inside (start + index)) :
    lay exits start (fragment.settle places) = lay inside start fragment := by
  apply List.ext_getElem?
  intro index
  rw [getElem?_lay, getElem?_lay, Fragment.settle, List.getElem?_mapIdx]
  cases fragment[index]? with
  | none => rfl
  | some instr =>
    rw [Option.map_some, Option.map_some, Option.map_some, Instr.mapTarget_mapTarget]
    congr 2
    funext target
    exact h target index

/-- Finished code is the fragment laid from the first index on. -/
theorem lay_eq_of_link? {fragment : Fragment} {code : List (Instr Nat)}
    (h : fragment.link? = some code) : lay exits 0 fragment = code := by
  apply List.ext_getElem?
  intro index
  rw [getElem?_lay]
  cases hinstr : fragment[index]? with
  | some instr =>
    have hplaced := placed_of_link? exits h index instr hinstr
    rw [Nat.zero_add] at hplaced ⊢
    exact hplaced.symm
  | none =>
    rw [List.getElem?_eq_none_iff] at hinstr
    exact (List.getElem?_eq_none_iff.mpr (length_link? h ▸ hinstr)).symm

/-! ## Filling in -/

theorem Instr.mapTarget_congr {τ σ : Type} {f g : τ → σ} {instr : Instr τ}
    (h : ∀ target ∈ instr.target?, f target = g target) :
    instr.mapTarget f = instr.mapTarget g := by
  cases instr with
  | jump target | jumpIfFalse target =>
    rw [Instr.mapTarget, Instr.mapTarget, h target rfl]
  | _ => rfl

/-- A jump is given its target. -/
theorem patch_append {instr : Instr Nat} (hjump : instr.target?.isSome) (target : Nat)
    (front back : List (Instr Nat)) :
    patch target (front ++ instr :: back) front.length =
      .ok (front ++ instr.mapTarget (fun _ => target) :: back) := by
  unfold patch
  rw [List.getElem?_append_right (Nat.le_refl _), Nat.sub_self, List.getElem?_cons_zero]
  cases instr with
  | jump other | jumpIfFalse other => simp [Instr.mapTarget]
  | _ => exact absurd hjump (by simp [Instr.target?])

theorem patch_behind {target place : Nat} {instrs patched : List (Instr Nat)}
    (h : patch target instrs place = .ok patched) (back : List (Instr Nat)) :
    patch target (instrs ++ back) place = .ok (patched ++ back) := by
  unfold patch at h ⊢
  cases hinstr : instrs[place]? with
  | none =>
    rw [hinstr] at h
    exact absurd h (by simp)
  | some instr =>
    have hlt : place < instrs.length := (List.getElem?_eq_some_iff.mp hinstr).1
    rw [hinstr] at h
    rw [List.getElem?_append_left hlt, hinstr]
    cases instr with
    | jump other | jumpIfFalse other =>
      obtain rfl := Except.ok.inj h
      simp only
      rw [List.set_append_left _ _ hlt]
    | _ => exact absurd h (by simp)

/-- Filling in makes no difference to what lies behind. -/
theorem foldlM_patch_behind {target : Nat} {places : List Nat} {instrs patched : List (Instr Nat)}
    (h : places.foldlM (patch target) instrs = .ok patched) (back : List (Instr Nat)) :
    places.foldlM (patch target) (instrs ++ back) = .ok (patched ++ back) := by
  induction places generalizing instrs with
  | nil =>
    obtain rfl := Except.ok.inj h
    rfl
  | cons place rest ih =>
    rw [List.foldlM_cons] at h
    obtain ⟨next, hnext, hrest⟩ := bind_eq_ok_iff.mp h
    have hfront := patch_behind hnext back
    rw [List.foldlM_cons, hfront]
    exact ih hrest

/-- Filling in the open jumps of one role gives that role its place. -/
theorem foldlM_patch_openJumps {target : Nat} {settled : Exits}
    (hsettled : ∀ (other : Target) (index : Nat),
      other.place settled index = if other = role then target else other.place exits index)
    (front : List (Instr Nat)) (fragment : Fragment) (back : List (Instr Nat)) :
    (openJumps role front.length fragment).foldlM (patch target)
        (front ++ lay exits front.length fragment ++ back) =
      .ok (front ++ lay settled front.length fragment ++ back) := by
  induction fragment generalizing front with
  | nil => rfl
  | cons instr rest ih =>
    -- Behind its first instruction the fragment has a longer front, in which that one is settled.
    have hnext := ih (front ++ [instr.mapTarget (Target.place settled front.length)])
    rw [List.length_append, List.length_singleton] at hnext
    simp only [List.append_assoc, List.singleton_append] at hnext
    rw [openJumps, lay, lay]
    simp only [List.append_assoc, List.cons_append]
    split
    · next hrole =>
      have hpatched : (instr.mapTarget (Target.place exits front.length)).mapTarget
          (fun _ => target) = instr.mapTarget (Target.place settled front.length) := by
        rw [Instr.mapTarget_mapTarget]
        refine Instr.mapTarget_congr fun other hother => ?_
        obtain rfl : role = other := Option.some.inj (hrole.symm.trans hother)
        rw [hsettled, if_pos rfl]
      have hjump : (instr.mapTarget (Target.place exits front.length)).target?.isSome := by
        rw [Instr.target?_mapTarget, hrole]
        rfl
      rw [List.foldlM_cons, patch_append hjump, hpatched]
      exact hnext
    · next hrole =>
      have hkept : instr.mapTarget (Target.place exits front.length) =
          instr.mapTarget (Target.place settled front.length) := by
        refine Instr.mapTarget_congr fun other hother => ?_
        rw [hsettled, if_neg]
        rintro rfl
        exact hrole hother
      rw [hkept]
      exact hnext

end

/-! ## Extended drafts -/

namespace Draft

theorem here_extend (draft : Draft) (fragment : Fragment) (next : Nat) :
    (draft.extend fragment next).here = draft.here + fragment.length := by
  simp [here, extend]

@[simp] theorem names_extend (draft : Draft) (fragment : Fragment) (next : Nat) :
    (draft.extend fragment next).names = draft.names := by
  simp only [names, extend]
  cases draft.bodies <;> rfl

@[simp] theorem names_goTo (draft : Draft) (line : Nat) : (draft.goTo line).names = draft.names :=
  rfl

@[simp] theorem names_emit (draft : Draft) (instr : Instr Nat) :
    (draft.emit instr).names = draft.names :=
  rfl

@[simp] theorem names_openLoop (draft : Draft) : draft.openLoop.names = draft.names :=
  rfl

@[simp] theorem names_popLoop (draft : Draft) : draft.popLoop.names = draft.names :=
  rfl

theorem goTo_extend (draft : Draft) (fragment : Fragment) (line next : Nat) :
    (draft.goTo line).extend fragment next = (draft.extend fragment next).goTo line :=
  rfl

theorem extend_nil (draft : Draft) : draft.extend [] draft.next = draft := by
  obtain ⟨instrs, next, line, loops, bodies⟩ := draft
  cases loops <;> cases bodies <;> simp [extend, lay, openJumps]

theorem extend_extend (draft : Draft) (first second : Fragment) (middle next : Nat) :
    (draft.extend first middle).extend second next = draft.extend (first ++ second) next := by
  have hhere := draft.here_extend first middle
  unfold extend at hhere ⊢
  simp only [hhere, lay_append, openJumps_append, List.append_assoc, List.modifyHead_modifyHead,
    Function.comp_def]

/-- Writing an instruction without a target. -/
theorem put_eq_extend {instr : Instr Target} (h : instr.target? = none) (draft : Draft) :
    draft.put instr = draft.extend [instr] draft.next := by
  have hinstr : (instr.mapTarget fun _ => unpatched) =
      instr.mapTarget (Target.place holes draft.here) := by
    refine Instr.mapTarget_congr fun target htarget => ?_
    rw [h] at htarget
    exact absurd htarget (by simp)
  obtain ⟨instrs, next, line, loops, bodies⟩ := draft
  cases loops <;> cases bodies <;> simp [put, emit, extend, lay, openJumps, h, hinstr]

/-- One more instruction without a target. -/
theorem put_extend (draft : Draft) (code : Fragment) (next : Nat) {instr : Instr Target}
    (h : instr.target? = none) :
    (draft.extend code next).put instr = draft.extend (code ++ [instr]) next := by
  rw [put_eq_extend h, extend_extend]
  rfl

theorem patchAll_eq_ok {draft : Draft} {target : Nat} {places : List Nat}
    {instrs : List (Instr Nat)} (h : places.foldlM (patch target) draft.instrs = .ok instrs) :
    draft.patchAll target places = .ok { draft with instrs } := by
  unfold patchAll
  rw [h]
  rfl

theorem patchAll_cons {draft : Draft} {target place : Nat} {instrs : List (Instr Nat)}
    (h : patch target draft.instrs place = .ok instrs) (places : List Nat) :
    draft.patchAll target (place :: places) = { draft with instrs }.patchAll target places := by
  unfold patchAll
  rw [List.foldlM_cons, h]
  rfl

/-- The line makes no difference to filling in. -/
theorem patchAll_goTo {draft patched : Draft} {target : Nat} {places : List Nat}
    (h : draft.patchAll target places = .ok patched) (line : Nat) :
    (draft.goTo line).patchAll target places = .ok (patched.goTo line) := by
  obtain ⟨instrs, hinstrs, hpatched⟩ := bind_eq_ok_iff.mp h
  obtain rfl := Except.ok.inj hpatched
  exact patchAll_eq_ok hinstrs

/-- Filling in makes no difference to what is written behind. -/
theorem patchAll_emit {draft patched : Draft} {target : Nat} {places : List Nat}
    (h : draft.patchAll target places = .ok patched) (instr : Instr Nat) :
    (draft.emit instr).patchAll target places = .ok (patched.emit instr) := by
  obtain ⟨instrs, hinstrs, hpatched⟩ := bind_eq_ok_iff.mp h
  obtain rfl := Except.ok.inj hpatched
  exact patchAll_eq_ok (foldlM_patch_behind hinstrs [instr])

/-! ## Choices -/

/-- A jump that is written without its target and given it later. -/
theorem patchAll_put (draft : Draft) (instr : Instr Target) {distance : Int} {target : Nat}
    (hinstr : instr.target? = some (.apart distance))
    (htarget : (draft.here : Int) + distance = target) (rest : Fragment) (next : Nat) :
    ((draft.put instr).extend rest next).patchAll target [draft.here] =
      .ok (draft.extend (instr :: rest) next) := by
  have hjump : (instr.mapTarget fun _ => unpatched).target?.isSome := by
    rw [Instr.target?_mapTarget, hinstr]
    rfl
  have hplaced : (instr.mapTarget fun _ => target) =
      instr.mapTarget (Target.place holes draft.here) := by
    refine Instr.mapTarget_congr fun other hother => ?_
    obtain rfl : other = .apart distance := Option.some.inj (hother.symm.trans hinstr)
    simp only [Target.place]
    omega
  have hpatch := patch_append hjump target draft.instrs (lay holes (draft.here + 1) rest)
  rw [Instr.mapTarget_mapTarget, hplaced, ← here] at hpatch
  have hwritten : ((draft.put instr).extend rest next).instrs =
      draft.instrs ++ (instr.mapTarget fun _ => unpatched) :: lay holes (draft.here + 1) rest := by
    simp [put, emit, extend, here]
  have hall : [draft.here].foldlM (patch target) ((draft.put instr).extend rest next).instrs =
      .ok (draft.instrs ++ lay holes draft.here (instr :: rest)) := by
    rw [hwritten, List.foldlM_cons, hpatch]
    rfl
  rw [patchAll_eq_ok hall]
  simp [put, emit, extend, here, openJumps, hinstr]

/-- A test whose jump is given its target when `rest` has been written behind it. -/
theorem patchAll_test (draft : Draft) (cond rest : Fragment) (middle next : Nat)
    {tested written : Draft} (htested : tested = draft.extend cond middle)
    (hwritten : written = (tested.emit (.jumpIfFalse unpatched)).extend rest next)
    {behind target : Nat} (htarget : tested.here + 1 + behind = target) :
    written.patchAll target [tested.here] =
      .ok (draft.extend (loopTest (some cond) behind ++ rest) next) := by
  have hdistance : (tested.here : Int) + (behind + 1 : Int) = target := by omega
  have hpatched : written.patchAll target [tested.here] =
      .ok (tested.extend (.jumpIfFalse (.apart (behind + 1)) :: rest) next) := by
    rw [hwritten]
    exact tested.patchAll_put (.jumpIfFalse (.apart (behind + 1))) rfl hdistance rest next
  rw [hpatched, htested, extend_extend, loopTest, List.append_assoc, List.singleton_append]

theorem here_test {tested : Draft} (rest : Fragment) (next : Nat) (instr : Instr Nat) :
    ((tested.emit instr).extend rest next).here = tested.here + 1 + rest.length := by
  rw [here_extend]
  simp only [here, emit, List.length_append, List.length_singleton]

/-- A choice with one way, once its test has been given its target. -/
theorem patchAll_choice_none (draft : Draft) (cond yes : Fragment) (middle next : Nat)
    {tested written : Draft} (htested : tested = draft.extend cond middle)
    (hwritten : written = (tested.emit (.jumpIfFalse unpatched)).extend yes next) :
    written.patchAll written.here [tested.here] =
      .ok (draft.extend (choice cond yes none) next) := by
  have htarget : tested.here + 1 + yes.length = written.here := by
    rw [hwritten, here_test]
  rw [draft.patchAll_test cond yes middle next htested hwritten htarget, choice_none_eq]

/-- A choice with two ways, once its test has been given its target in front of the second. -/
theorem patchAll_choice_yes (draft : Draft) (cond yes : Fragment) (middle next : Nat)
    {tested written : Draft} (htested : tested = draft.extend cond middle)
    (hwritten : written = (tested.emit (.jumpIfFalse unpatched)).extend yes next) :
    (written.emit (.jump unpatched)).patchAll (written.emit (.jump unpatched)).here [tested.here] =
      .ok ((draft.extend (loopTest (some cond) (yes.length + 1) ++ yes) next).emit
        (.jump unpatched)) := by
  have htarget : tested.here + 1 + (yes.length + 1) = (written.emit (.jump unpatched)).here := by
    have hhere : written.here = tested.here + 1 + yes.length := by rw [hwritten, here_test]
    simp only [here, emit, List.length_append, List.length_singleton] at hhere ⊢
    omega
  exact patchAll_emit (draft.patchAll_test cond yes middle next htested hwritten htarget) _

/-- A choice with two ways, once the jump past the second has been given its target. -/
theorem patchAll_choice_some (draft : Draft) (cond yes no : Fragment) (first middle next : Nat)
    {tested yesWritten written : Draft} (htested : tested = draft.extend cond first)
    (hyes : yesWritten = (tested.emit (.jumpIfFalse unpatched)).extend yes middle)
    (hwritten : written = ((draft.extend (loopTest (some cond) (yes.length + 1) ++ yes)
      middle).emit (.jump unpatched)).extend no next) :
    written.patchAll written.here [yesWritten.here] =
      .ok (draft.extend (choice cond yes (some no)) next) := by
  obtain ⟨front, hfront⟩ : ∃ front,
      front = draft.extend (loopTest (some cond) (yes.length + 1) ++ yes) middle := ⟨_, rfl⟩
  rw [← hfront] at hwritten
  have hskip : yesWritten.here = front.here := by
    rw [hyes, hfront, here_test, htested, here_extend, here_extend]
    simp only [loopTest, List.length_append, List.length_singleton, Nat.add_assoc]
  have hdistance : (front.here : Int) + (no.length + 1 : Int) = written.here := by
    rw [hwritten, here_test]
    omega
  have hpatched : written.patchAll written.here [front.here] =
      .ok (front.extend (.jump (.apart (no.length + 1)) :: no) next) := by
    rw [hwritten] at hdistance ⊢
    exact front.patchAll_put (.jump (.apart (no.length + 1))) rfl hdistance no next
  rw [hskip, hpatched, hfront, extend_extend, choice_some_eq, List.append_assoc]

end Draft

/-! ## Loops -/

section

variable {start first behind : Nat} {cond : Option Fragment} {body step : Fragment} {turn : Int}

/-- Where the parts of a loop lie. -/
theorem lay_turnLoop {exits : Exits} {turnAt : Nat}
    (hbehind : behind = body.length + step.length + 1)
    (hfirst : first = start + (loopTest cond behind).length)
    (hturn : (first : Int) + turn = turnAt) :
    lay exits start (turnLoop cond body step turn) =
      lay exits start (loopTest cond behind) ++
        (lay (exits.insideLoop (first + behind) turnAt) first body ++
          (lay exits (first + body.length) step ++ [.jump start])) := by
  have hbody : lay exits first (body.settle (.ofLoop behind turn)) =
      lay (exits.insideLoop (first + behind) turnAt) first body :=
    lay_settle fun target index => target.place_settle_loop rfl hturn index
  have hback : ∀ place count : Nat, place = start + count →
      lay exits place [.jump (.apart (-(count : Int)))] = [.jump start] := by
    intro place count _
    simp only [lay, Instr.mapTarget, Target.place]
    congr 2
    omega
  simp only [turnLoop, ← hbehind, lay_append, List.length_append, Fragment.length_settle, ← hfirst,
    hbody, List.append_assoc]
  rw [hback _ _ (by omega)]

/-- The open jumps of a loop are those of its parts, except for those that its body settles. -/
theorem openJumps_turnLoop {role : Target} (hrole : ∀ distance, role ≠ .apart distance)
    (hbehind : behind = body.length + step.length + 1)
    (hfirst : first = start + (loopTest cond behind).length) :
    openJumps role start (turnLoop cond body step turn) =
      openJumps role start (loopTest cond behind) ++
        ((if role = .bodyEnd then openJumps role first body else []) ++
          openJumps role (first + body.length) step) := by
  have hbody : openJumps role first (body.settle (.ofLoop behind turn)) =
      if role = .bodyEnd then openJumps role first body else [] := by
    rw [openJumps_settle hrole]
    cases role with
    | apart distance => exact absurd rfl (hrole distance)
    | loopEnd | loopNext | bodyEnd => rfl
  have hback : ∀ (place : Nat) (distance : Int),
      openJumps role place [.jump (.apart distance)] = [] := by
    intro place distance
    simp [openJumps, Instr.target?, (hrole distance).symm]
  simp only [turnLoop, ← hbehind, openJumps_append, List.length_append, Fragment.length_settle,
    ← hfirst, hbody, hback, List.append_nil]

end

namespace Draft

/-- A test in front of what is written next: where its jump lies, and the draft behind it. -/
def withTest (draft : Draft) (cond : Option Fragment) (next : Nat) : Option Nat × Draft :=
  match cond with
  | none => (none, draft.extend [] next)
  | some code =>
    (some (draft.extend code next).here, (draft.extend code next).emit (.jumpIfFalse unpatched))

/-- Only its jump sets a test apart from one that has its target. -/
theorem withTest_eq (draft : Draft) (cond : Option Fragment) (next behind : Nat) :
    (draft.withTest cond next).2 =
      { draft.extend (loopTest cond behind) next with
        instrs := (draft.withTest cond next).2.instrs } := by
  cases cond with
  | none => rfl
  | some code =>
    simp [withTest, loopTest, extend, emit, openJumps_append, openJumps, Instr.target?]

theorem here_withTest (draft : Draft) (cond : Option Fragment) (next behind : Nat) :
    (draft.withTest cond next).2.here = draft.here + (loopTest cond behind).length := by
  cases cond with
  | none => simp [withTest, loopTest, here_extend]
  | some code => simp [withTest, loopTest, extend, emit, here]

@[simp] theorem names_withTest (draft : Draft) (cond : Option Fragment) (next : Nat) :
    (draft.withTest cond next).2.names = draft.names := by
  cases cond with
  | none => exact draft.names_extend [] next
  | some code => exact draft.names_extend code next

theorem next_withTest (draft : Draft) (cond : Option Fragment) (next : Nat) :
    (draft.withTest cond next).2.openLoop.next = next := by
  cases cond <;> rfl

theorem closeLoop_none {draft : Draft} {front back : List (Instr Nat)} {body : Fragment}
    (h : draft.instrs = front ++ lay holes front.length body ++ back) (turnAt : Nat) :
    draft.closeLoop ⟨openJumps .loopEnd front.length body, openJumps .loopNext front.length body⟩
        none turnAt =
      .ok { draft with
        instrs := front ++ lay (holes.insideLoop draft.here turnAt) front.length body ++
          back } := by
  have hbreaks : (openJumps .loopEnd front.length body).foldlM (patch draft.here) draft.instrs =
      .ok (front ++ lay (holes.insideLoop draft.here unpatched) front.length body ++ back) := by
    rw [h]
    refine foldlM_patch_openJumps (fun other index => ?_) front body back
    cases other <;> rfl
  have hcontinues : (openJumps .loopNext front.length body).foldlM (patch turnAt)
      (front ++ lay (holes.insideLoop draft.here unpatched) front.length body ++ back) =
      .ok (front ++ lay (holes.insideLoop draft.here turnAt) front.length body ++ back) := by
    refine foldlM_patch_openJumps (fun other index => ?_) front body back
    cases other <;> rfl
  show (draft.patchAll draft.here (openJumps .loopEnd front.length body) >>= fun broken =>
    broken.patchAll turnAt (openJumps .loopNext front.length body)) = _
  rw [patchAll_eq_ok hbreaks]
  exact patchAll_eq_ok hcontinues

/-- The jump of the test is the first to be given its target. -/
theorem closeLoop_some {draft : Draft} {front back : List (Instr Nat)} {target : Nat}
    (h : draft.instrs = front ++ .jumpIfFalse target :: back) (jumps : LoopJumps) (turnAt : Nat) :
    draft.closeLoop jumps (some front.length) turnAt =
      ({ draft with instrs := front ++ .jumpIfFalse draft.here :: back } : Draft).closeLoop jumps
        none turnAt := by
  have hpatch : patch draft.here draft.instrs front.length =
      .ok (front ++ .jumpIfFalse draft.here :: back) := by
    rw [h]
    exact patch_append rfl _ front back
  have hhere : ({ draft with instrs := front ++ .jumpIfFalse draft.here :: back } : Draft).here =
      draft.here := by
    simp [here, h]
  unfold closeLoop
  rw [hhere]
  show (draft.patchAll draft.here (front.length :: jumps.breaks) >>= _) = _
  rw [patchAll_cons hpatch]
  rfl

/-- The jumps of a loop are given their targets: that of the test, and those of the body. -/
theorem closeLoop_withTest (draft : Draft) (cond : Option Fragment) (next : Nat)
    {tested written : Draft} (htested : tested = (draft.withTest cond next).2) {body : Fragment}
    {back : List (Instr Nat)}
    (hinstrs : written.instrs = tested.instrs ++ (lay holes tested.here body ++ back))
    {behind : Nat} (hbehind : written.here = tested.here + behind) (turnAt : Nat) :
    written.closeLoop ⟨openJumps .loopEnd tested.here body, openJumps .loopNext tested.here body⟩
        (draft.withTest cond next).1 turnAt =
      .ok { written with
        instrs := (draft.extend (loopTest cond behind) next).instrs ++
          (lay (holes.insideLoop written.here turnAt) tested.here body ++ back) } := by
  cases cond with
  | none =>
    rw [← List.append_assoc] at hinstrs ⊢
    rw [htested] at hinstrs ⊢
    exact closeLoop_none hinstrs turnAt
  | some code =>
    obtain ⟨front, hfront⟩ : ∃ front, front = (draft.extend code next).instrs := ⟨_, rfl⟩
    -- The jump of the test is filled in while those of the body still wait.
    obtain ⟨test, htest⟩ : ∃ test, test = front ++ [.jumpIfFalse written.here] := ⟨_, rfl⟩
    have hexit : (draft.withTest (some code) next).1 = some front.length := by
      rw [hfront]
      rfl
    have hopened : tested.instrs = front ++ [.jumpIfFalse unpatched] := by
      rw [htested, hfront]
      rfl
    have hhere : tested.here = test.length := by
      simp [here, hopened, htest]
    have hlaid : (draft.extend (loopTest (some code) behind) next).instrs = test := by
      have htarget : Target.place holes front.length (.apart (behind + 1)) = written.here := by
        rw [htest, List.length_append, List.length_singleton] at hhere
        simp only [Target.place]
        omega
      rw [loopTest, ← draft.extend_extend code _ next, htest, ← htarget, hfront]
      rfl
    have hpatched : front ++ .jumpIfFalse written.here :: (lay holes tested.here body ++ back) =
        test ++ lay holes test.length body ++ back := by
      rw [hhere, htest]
      simp
    have hsame : (test ++ lay holes test.length body ++ back).length = written.here := by
      rw [here] at hhere ⊢
      rw [hinstrs]
      simp only [List.length_append, length_lay, ← hhere, Nat.add_assoc]
    rw [hexit, closeLoop_some (by rw [hinstrs, hopened, List.append_assoc, List.singleton_append]),
      hpatched, hhere, closeLoop_none rfl turnAt, here, hsame, hlaid, List.append_assoc]

/-- A loop that has been written. Only the targets of its jumps are missing. -/
theorem written_turnLoop (draft : Draft) (cond : Option Fragment) (body step : Fragment)
    (first middle next : Nat) (turn : Int) {tested inside : Draft}
    (htested : tested = (draft.withTest cond first).2)
    (hinside : inside = tested.openLoop.extend body middle) :
    (inside.popLoop.extend step next).emit (.jump draft.here) =
      { draft.extend (turnLoop cond body step turn) next with
        instrs := tested.instrs ++ (lay holes tested.here body ++
          (lay holes (tested.here + body.length) step ++ [.jump draft.here])) } := by
  obtain ⟨behind, hbehind⟩ : ∃ behind, behind = body.length + step.length + 1 := ⟨_, rfl⟩
  have hfirst : tested.here = draft.here + (loopTest cond behind).length := by
    rw [htested, here_withTest]
  have hopened : tested =
      { draft.extend (loopTest cond behind) first with instrs := tested.instrs } := by
    rw [htested]
    exact draft.withTest_eq cond first behind
  -- The loop around has nothing to remember of the body, but an inlined body around both has.
  have hpopped : inside.popLoop = { tested.extend body middle with loops := tested.loops } := by
    rw [hinside]
    rfl
  have hmiddle : inside.popLoop.here = tested.here + body.length := by
    rw [hpopped]
    exact here_extend tested body middle
  have hloops : tested.loops = (draft.extend (loopTest cond behind) first).loops := by
    rw [hopened]
  have hbodies : tested.bodies = (draft.extend (loopTest cond behind) first).bodies := by
    rw [hopened]
  have hline : tested.line = draft.line := by
    rw [hopened]
    rfl
  have hopen : ∀ role : Target, (∀ distance, role ≠ .apart distance) →
      openJumps role draft.here (turnLoop cond body step turn) = _ :=
    fun role hrole => openJumps_turnLoop hrole hbehind hfirst
  unfold emit
  rw [extend, hmiddle, hpopped]
  simp only [extend, hloops, hbodies, hline, List.modifyHead_modifyHead, Function.comp_def,
    List.append_assoc, hopen .loopEnd (by simp), hopen .loopNext (by simp),
    hopen .bodyEnd (by simp)]
  rfl

/-- A loop that is over. -/
theorem closeLoop_turnLoop (draft : Draft) (cond : Option Fragment) (body step : Fragment)
    (first middle next : Nat) {turn : Int} {turnAt : Nat} {tested inside : Draft}
    (htested : tested = (draft.withTest cond first).2)
    (hinside : inside = tested.openLoop.extend body middle)
    (hturn : (tested.here : Int) + turn = turnAt) :
    ((inside.popLoop.extend step next).emit (.jump draft.here)).closeLoop inside.loopJumps
        (draft.withTest cond first).1 turnAt =
      .ok (draft.extend (turnLoop cond body step turn) next) := by
  obtain ⟨behind, hbehind⟩ : ∃ behind, behind = body.length + step.length + 1 := ⟨_, rfl⟩
  have hfirst : tested.here = draft.here + (loopTest cond behind).length := by
    rw [htested, here_withTest]
  have hjumps : inside.loopJumps =
      ⟨openJumps .loopEnd tested.here body, openJumps .loopNext tested.here body⟩ := by
    rw [hinside]
    rfl
  obtain ⟨written, hwritten⟩ : ∃ written,
      written = (inside.popLoop.extend step next).emit (.jump draft.here) := ⟨_, rfl⟩
  have hopen := draft.written_turnLoop cond body step first middle next turn htested hinside
  rw [← hwritten] at hopen ⊢
  have hinstrs := congrArg Draft.instrs hopen
  have hending : written.here = tested.here + behind := by
    rw [here, hinstrs]
    simp only [here, List.length_append, length_lay, List.length_singleton]
    omega
  rw [hjumps, draft.closeLoop_withTest cond first htested hinstrs hending turnAt, hending]
  have hlaid : (draft.extend (turnLoop cond body step turn) next).instrs =
      (draft.extend (loopTest cond behind) first).instrs ++
        (lay (holes.insideLoop (tested.here + behind) turnAt) tested.here body ++
          (lay holes (tested.here + body.length) step ++ [.jump draft.here])) := by
    simp only [extend]
    rw [lay_turnLoop hbehind hfirst hturn, List.append_assoc]
  rw [← hlaid, hopen]

/-- A loop with a step that is over. -/
theorem closeLoop_stepLoop (draft : Draft) (cond : Option Fragment) (body step : Fragment)
    (first middle next : Nat) {inside : Draft}
    (hinside : inside = (draft.withTest cond first).2.openLoop.extend body middle) :
    ((inside.popLoop.extend step next).emit (.jump draft.here)).closeLoop inside.loopJumps
        (draft.withTest cond first).1 inside.here =
      .ok (draft.extend (stepLoop cond body step) next) := by
  have hturn : ((draft.withTest cond first).2.here : Int) + (body.length : Int) = inside.here := by
    rw [hinside, here_extend]
    rfl
  rw [stepLoop_eq_turnLoop]
  exact draft.closeLoop_turnLoop cond body step first middle next rfl hinside hturn

/-- A loop without a step that is over. -/
theorem closeLoop_testLoop (draft : Draft) (cond body : Fragment) (first next : Nat)
    {inside : Draft}
    (hinside : inside = (draft.withTest (some cond) first).2.openLoop.extend body next) :
    (inside.popLoop.emit (.jump draft.here)).closeLoop inside.loopJumps
        (draft.withTest (some cond) first).1 draft.here =
      .ok (draft.extend (testLoop cond body) next) := by
  have hturn : ((draft.withTest (some cond) first).2.here : Int) +
      -((loopTest (some cond) (body.length + 1)).length : Int) = draft.here := by
    rw [here_withTest draft (some cond) first (body.length + 1)]
    omega
  have hstep : inside.popLoop.extend [] next = inside.popLoop := by
    rw [hinside]
    exact extend_nil _
  have hclosed := draft.closeLoop_turnLoop (some cond) body [] first next next rfl hinside hturn
  rwa [hstep, ← testLoop_eq_turnLoop] at hclosed

/-- The line makes no difference to the end of a loop. -/
theorem closeLoop_goTo {draft closed : Draft} {jumps : LoopJumps} {exit : Option Nat} {turnAt : Nat}
    (h : draft.closeLoop jumps exit turnAt = .ok closed) (line : Nat) :
    (draft.goTo line).closeLoop jumps exit turnAt = .ok (closed.goTo line) := by
  obtain ⟨ended, hended, hclosed⟩ := bind_eq_ok_iff.mp h
  show ((draft.goTo line).patchAll draft.here (exit.toList ++ jumps.breaks) >>= _) = _
  rw [patchAll_goTo hended line]
  exact patchAll_goTo hclosed line

/-! ## Leaving loops and bodies -/

theorem emitBreak_eq_extend (draft : Draft) :
    draft.emitBreak = draft.extend [.jump .loopEnd] draft.next := by
  obtain ⟨instrs, next, line, loops, bodies⟩ := draft
  cases loops <;> cases bodies <;>
    simp [emitBreak, emit, extend, lay, openJumps, Instr.target?, Instr.mapTarget, Target.place,
      holes]

theorem emitContinue_eq_extend (draft : Draft) :
    draft.emitContinue = draft.extend [.jump .loopNext] draft.next := by
  obtain ⟨instrs, next, line, loops, bodies⟩ := draft
  cases loops <;> cases bodies <;>
    simp [emitContinue, emit, extend, lay, openJumps, Instr.target?, Instr.mapTarget, Target.place,
      holes]

theorem emitReturn_eq_extend (draft : Draft) :
    draft.emitReturn =
      draft.extend [if draft.bodies.isEmpty then .stop else .jump .bodyEnd] draft.next := by
  obtain ⟨instrs, next, line, loops, bodies⟩ := draft
  cases loops <;> cases bodies <;>
    simp [emitReturn, emit, extend, lay, openJumps, Instr.target?, Instr.mapTarget, Target.place,
      holes]

/-- An inlined body that is over. -/
theorem closeBody_extend (draft : Draft) (name : String) (body : Fragment) (next line : Nat) :
    (((draft.openBody name).extend body next).goTo line).closeBody draft.line =
      .ok (draft.extend (body.settle (.ofBody body.length)) next) := by
  have hlaid : lay holes draft.here (body.settle (.ofBody body.length)) =
      lay (holes.insideBody (draft.here + body.length)) draft.here body :=
    lay_settle fun target index => target.place_settle_body index
  have hplaces : ∀ (other : Target) (index : Nat),
      other.place (holes.insideBody (draft.here + body.length)) index =
        if other = .bodyEnd then draft.here + body.length else other.place holes index := by
    intro other index
    cases other <;> rfl
  have hpatched := foldlM_patch_openJumps hplaces draft.instrs body []
  rw [List.append_nil, List.append_nil, ← here, ← hlaid] at hpatched
  have hhere : (((draft.openBody name).extend body next).goTo line).here =
      draft.here + body.length :=
    here_extend (draft.openBody name) body next
  have hloops : ∀ role : Target, role = .loopEnd ∨ role = .loopNext →
      openJumps role draft.here (body.settle (.ofBody body.length)) =
        openJumps role draft.here body := by
    rintro role (rfl | rfl)
    · exact openJumps_settle (by simp) body
    · exact openJumps_settle (by simp) body
  have hbodies : openJumps .bodyEnd draft.here (body.settle (.ofBody body.length)) = [] :=
    openJumps_settle (by simp) body
  unfold closeBody
  rw [hhere]
  show (Draft.patchAll (draft.here + body.length) (openJumps .bodyEnd draft.here body) _ >>= _) = _
  rw [patchAll_eq_ok hpatched]
  simp only [extend, hloops .loopEnd (.inl rfl), hloops .loopNext (.inr rfl), hbodies,
    List.append_nil]
  have hkept : draft.bodies.modifyHead (fun jumps => { jumps with returns := jumps.returns }) =
      draft.bodies := by
    cases draft.bodies <;> rfl
  rw [hkept]
  rfl

end Draft

end RoomForge.Code
