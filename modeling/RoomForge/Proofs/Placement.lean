import RoomForge.Code.Compile
import RoomForge.Proofs.Fallible

set_option autoImplicit false

/-! # Fragments in finished code

`Placed code exits start fragment` says that a fragment stands in finished code from the index
`start` on, where `exits` are the indices that its open roles stand for. What a fragment is put
together from can then be found in the code at known places. `placed_of_link?` starts this: finished
code holds its own fragment at index zero.
-/

namespace RoomForge.Code

/-- The indices that the roles of a fragment stand for in finished code. -/
structure Exits where
  loopEnd : Nat
  loopNext : Nat
  bodyEnd : Nat
  deriving DecidableEq, Repr, Inhabited

namespace Exits

/-- The exits inside of a loop. -/
def insideLoop (exits : Exits) (ending next : Nat) : Exits :=
  { exits with loopEnd := ending, loopNext := next }

/-- The exits inside of an inlined body. -/
def insideBody (exits : Exits) (ending : Nat) : Exits :=
  { exits with bodyEnd := ending }

end Exits

/-- The index that a target of the instruction at `index` stands for. -/
def Target.place (exits : Exits) (index : Nat) : Target → Nat
  | .apart distance => ((index : Int) + distance).toNat
  | .loopEnd => exits.loopEnd
  | .loopNext => exits.loopNext
  | .bodyEnd => exits.bodyEnd

/-- A loop gives the roles of its body, which stands at `start`, their places. -/
theorem Target.place_settle_loop {exits : Exits} {start finish next : Nat} {ending turn : Int}
    (hfinish : (start : Int) + ending = finish) (hnext : (start : Int) + turn = next)
    (target : Target) (index : Nat) :
    (target.settle (.ofLoop ending turn) index).place exits (start + index) =
      target.place (exits.insideLoop finish next) (start + index) := by
  cases target with
  | apart | bodyEnd => rfl
  | loopEnd | loopNext =>
    simp only [Target.settle, Places.ofLoop, Target.place, Exits.insideLoop]
    omega

/-- An inlined body at `start` gives its role a place. -/
theorem Target.place_settle_body {exits : Exits} {start ending : Nat} (target : Target)
    (index : Nat) :
    (target.settle (.ofBody ending) index).place exits (start + index) =
      target.place (exits.insideBody (start + ending)) (start + index) := by
  cases target with
  | apart | loopEnd | loopNext => rfl
  | bodyEnd =>
    simp only [Target.settle, Places.ofBody, Target.place, Exits.insideBody]
    omega

/-- `P` holds of every instruction of a fragment that starts at the index `start`. -/
def EachAt (P : Nat → Instr Target → Prop) (start : Nat) (fragment : Fragment) : Prop :=
  ∀ index instr, fragment[index]? = some instr → P (start + index) instr

namespace EachAt

variable {P : Nat → Instr Target → Prop} {start : Nat}

theorem nil : EachAt P start [] := by
  intro index instr h
  simp at h

theorem append_iff {first second : Fragment} :
    EachAt P start (first ++ second) ↔
      EachAt P start first ∧ EachAt P (start + first.length) second := by
  constructor
  · intro h
    constructor
    · intro index instr hinstr
      have hlt : index < first.length := (List.getElem?_eq_some_iff.mp hinstr).1
      exact h index instr (by rw [List.getElem?_append_left hlt, hinstr])
    · intro index instr hinstr
      rw [Nat.add_assoc]
      apply h (first.length + index) instr
      rw [List.getElem?_append_right (Nat.le_add_right _ _), Nat.add_sub_cancel_left, hinstr]
  · rintro ⟨hfirst, hsecond⟩ index instr hinstr
    by_cases hlt : index < first.length
    · rw [List.getElem?_append_left hlt] at hinstr
      exact hfirst index instr hinstr
    · obtain ⟨rest, rfl⟩ := Nat.exists_eq_add_of_le (Nat.le_of_not_lt hlt)
      rw [List.getElem?_append_right (Nat.le_add_right _ _), Nat.add_sub_cancel_left] at hinstr
      rw [← Nat.add_assoc]
      exact hsecond rest instr hinstr

theorem singleton_iff {instr : Instr Target} : EachAt P start [instr] ↔ P start instr := by
  constructor
  · intro h
    exact h 0 instr rfl
  · intro h index other hother
    obtain ⟨rfl, rfl⟩ : index = 0 ∧ instr = other := by
      cases index with
      | zero => exact ⟨rfl, by simpa using hother⟩
      | succ index => simp at hother
    exact h

theorem cons_iff {instr : Instr Target} {rest : Fragment} :
    EachAt P start (instr :: rest) ↔ P start instr ∧ EachAt P (start + 1) rest := by
  rw [← List.singleton_append, append_iff, singleton_iff]
  rfl

/-- What holds of a settled fragment holds of the fragment's own targets, once settled. -/
theorem settle_iff {fragment : Fragment} {places : Places} :
    EachAt P start (fragment.settle places) ↔ ∀ index instr, fragment[index]? = some instr →
      P (start + index) (instr.mapTarget (Target.settle places index)) := by
  constructor
  · intro h index instr hinstr
    exact h index _ (by simp [Fragment.settle, hinstr])
  · intro h index settled hsettled
    simp only [Fragment.settle, List.getElem?_mapIdx] at hsettled
    obtain ⟨instr, hinstr, rfl⟩ := Option.map_eq_some_iff.mp hsettled
    exact h index instr hinstr

end EachAt

/-- The fragment stands in the code from the index `start` on. -/
def Placed (code : List (Instr Nat)) (exits : Exits) : (start : Nat) → Fragment → Prop :=
  EachAt fun index instr => code[index]? = some (instr.mapTarget (Target.place exits index))

namespace Placed

variable {code : List (Instr Nat)} {exits : Exits} {start : Nat}

theorem append_iff {first second : Fragment} :
    Placed code exits start (first ++ second) ↔
      Placed code exits start first ∧ Placed code exits (start + first.length) second :=
  EachAt.append_iff

theorem cons_iff {instr : Instr Target} {rest : Fragment} :
    Placed code exits start (instr :: rest) ↔
      code[start]? = some (instr.mapTarget (Target.place exits start)) ∧
        Placed code exits (start + 1) rest :=
  EachAt.cons_iff

/-- A settled fragment stands where the fragment does, with the exits that it settles. -/
theorem of_settle {fragment : Fragment} {places : Places} {inside : Exits}
    (hinside : ∀ (target : Target) (index : Nat),
      (target.settle places index).place exits (start + index) =
        target.place inside (start + index))
    (h : Placed code exits start (fragment.settle places)) : Placed code inside start fragment := by
  intro index instr hinstr
  show code[start + index]? = _
  rw [EachAt.settle_iff.mp h index instr hinstr, Instr.mapTarget_mapTarget]
  congr 2
  funext target
  exact hinside target index

end Placed

/-- `P` holds of every instruction of the code from the index `start` up to `finish`. -/
def Throughout (code : List (Instr Nat)) (P : Nat → Instr Nat → Prop) (start finish : Nat) : Prop :=
  ∀ index instr, start ≤ index → index < finish → code[index]? = some instr → P index instr

namespace Throughout

variable {code : List (Instr Nat)} {P : Nat → Instr Nat → Prop} {start middle finish : Nat}

theorem append (hfirst : Throughout code P start middle)
    (hsecond : Throughout code P middle finish) : Throughout code P start finish := by
  intro index instr hle hlt hinstr
  by_cases hindex : index < middle
  · exact hfirst index instr hle hindex hinstr
  · exact hsecond index instr (Nat.le_of_not_lt hindex) hlt hinstr

theorem single {instr : Instr Nat} (hinstr : code[start]? = some instr) (h : P start instr) :
    Throughout code P start (start + 1) := by
  intro index other hle hlt hother
  obtain rfl : index = start := by omega
  obtain rfl : instr = other := Option.some.inj (hinstr.symm.trans hother)
  exact h

end Throughout

/-! ## The parts of statements -/

theorem choice_none_eq (cond yes : Fragment) :
    choice cond yes none = loopTest (some cond) yes.length ++ yes := by
  rw [loopTest, List.append_assoc, List.singleton_append]
  rfl

theorem choice_some_eq (cond yes no : Fragment) :
    choice cond yes (some no) = loopTest (some cond) (yes.length + 1) ++
      (yes ++ .jump (.apart (no.length + 1)) :: no) := by
  simp [choice, loopTest, Int.add_assoc]

/-- A loop whose turns go on at `turn`, counted from its body. -/
def turnLoop (cond : Option Fragment) (body step : Fragment) (turn : Int) : Fragment :=
  let behind := body.length + step.length + 1
  let round := loopTest cond behind ++ (body.settle (.ofLoop behind turn) ++ step)
  round ++ [.jump (.apart (-(round.length : Int)))]

theorem stepLoop_eq_turnLoop (cond : Option Fragment) (body step : Fragment) :
    stepLoop cond body step = turnLoop cond body step body.length := by
  simp only [stepLoop, turnLoop, List.append_assoc]

theorem testLoop_eq_turnLoop (cond body : Fragment) :
    testLoop cond body =
      turnLoop (some cond) body [] (-((loopTest (some cond) (body.length + 1)).length : Int)) := by
  simp only [testLoop, turnLoop, List.append_nil, List.length_nil, Nat.add_zero]

namespace Placed

variable {code : List (Instr Nat)} {exits : Exits} {start : Nat}

/-- The body of an inlined function. -/
theorem body {fragment : Fragment}
    (h : Placed code exits start (fragment.settle (.ofBody fragment.length))) :
    Placed code (exits.insideBody (start + fragment.length)) start fragment :=
  h.of_settle fun target index => target.place_settle_body index

/-- The body of a loop that stands `start` instructions into the code. -/
theorem loopBody {fragment : Fragment} {ending turn : Int} {finish next : Nat}
    (hfinish : (start : Int) + ending = finish) (hnext : (start : Int) + turn = next)
    (h : Placed code exits start (fragment.settle (.ofLoop ending turn))) :
    Placed code (exits.insideLoop finish next) start fragment :=
  h.of_settle fun target index => target.place_settle_loop hfinish hnext index

/-- A choice with one way starts with a test in front of it. -/
theorem choice_none {cond yes : Fragment} (h : Placed code exits start (choice cond yes none)) :
    Placed code exits start (loopTest (some cond) yes.length) ∧
      Placed code exits (start + (loopTest (some cond) yes.length).length) yes := by
  rwa [← append_iff, ← choice_none_eq]

/-- A choice with two ways starts with a test in front of the first. A jump leads from there past
the second. -/
theorem choice_some {cond yes no : Fragment} {first last : Nat}
    (hfirst : first = start + (loopTest (some cond) (yes.length + 1)).length)
    (hlast : last = first + yes.length)
    (h : Placed code exits start (choice cond yes (some no))) :
    Placed code exits start (loopTest (some cond) (yes.length + 1)) ∧
      Placed code exits first yes ∧ code[last]? = some (.jump (last + 1 + no.length)) ∧
      Placed code exits (last + 1) no := by
  rw [choice_some_eq] at h
  obtain ⟨htest, hrest⟩ := append_iff.mp h
  rw [← hfirst] at hrest
  obtain ⟨hyes, hrest⟩ := append_iff.mp hrest
  rw [← hlast] at hrest
  obtain ⟨hend, hno⟩ := cons_iff.mp hrest
  refine ⟨htest, hyes, ?_, hno⟩
  rw [hend]
  simp only [Instr.mapTarget, Target.place]
  congr 2
  omega

/-- A test goes on behind itself, or skips `behind` instructions. -/
theorem loopTest_some {cond : Fragment} {behind : Nat}
    (h : Placed code exits start (loopTest (some cond) behind)) :
    Placed code exits start cond ∧
      code[start + cond.length]? = some (.jumpIfFalse (start + cond.length + 1 + behind)) := by
  obtain ⟨hcond, hrest⟩ := append_iff.mp h
  refine ⟨hcond, ?_⟩
  rw [(cons_iff.mp hrest).1]
  simp only [Instr.mapTarget, Target.place]
  congr 2
  omega

/-- The parts of a loop. -/
theorem turnLoop {cond : Option Fragment} {body step : Fragment} {turn : Int}
    {behind first last turnAt : Nat} (hbehind : behind = body.length + step.length + 1)
    (hfirst : first = start + (loopTest cond behind).length)
    (hlast : last = first + body.length + step.length) (hturn : (first : Int) + turn = turnAt)
    (h : Placed code exits start (turnLoop cond body step turn)) :
    Placed code exits start (loopTest cond behind) ∧
      Placed code (exits.insideLoop (last + 1) turnAt) first body ∧
      Placed code exits (first + body.length) step ∧
      code[last]? = some (.jump start) := by
  unfold Code.turnLoop at h
  rw [← hbehind] at h
  obtain ⟨hround, hback⟩ := append_iff.mp h
  obtain ⟨htest, hrest⟩ := append_iff.mp hround
  rw [← hfirst] at hrest
  obtain ⟨hbody, hstep⟩ := append_iff.mp hrest
  rw [Fragment.length_settle] at hstep
  refine ⟨htest, hbody.loopBody (by omega) hturn, hstep, ?_⟩
  simp only [List.length_append, Fragment.length_settle, ← Nat.add_assoc, ← hfirst] at hback
  rw [hlast, (cons_iff.mp hback).1]
  simp only [Instr.mapTarget, Target.place]
  congr 2
  omega

/-- The parts of a loop with a step. -/
theorem stepLoop {cond : Option Fragment} {body step : Fragment} {first last : Nat}
    (hfirst : first = start + (loopTest cond (body.length + step.length + 1)).length)
    (hlast : last = first + body.length + step.length)
    (h : Placed code exits start (stepLoop cond body step)) :
    Placed code exits start (loopTest cond (body.length + step.length + 1)) ∧
      Placed code (exits.insideLoop (last + 1) (first + body.length)) first body ∧
      Placed code exits (first + body.length) step ∧
      code[last]? = some (.jump start) := by
  rw [stepLoop_eq_turnLoop] at h
  exact h.turnLoop rfl hfirst hlast rfl

/-- The parts of a loop without a step. -/
theorem testLoop {cond body : Fragment} {first last : Nat}
    (hfirst : first = start + (loopTest (some cond) (body.length + 1)).length)
    (hlast : last = first + body.length)
    (h : Placed code exits start (testLoop cond body)) :
    Placed code exits start (loopTest (some cond) (body.length + 1)) ∧
      Placed code (exits.insideLoop (last + 1) start) first body ∧
      code[last]? = some (.jump start) := by
  rw [testLoop_eq_turnLoop] at h
  have hturn : (first : Int) + -((loopTest (some cond) (body.length + 1)).length : Int) =
      start := by
    omega
  obtain ⟨htest, hbody, _, hback⟩ := h.turnLoop rfl hfirst hlast hturn
  exact ⟨htest, hbody, hback⟩

end Placed

@[simp] theorem length_turnLoop (cond : Option Fragment) (body step : Fragment) (turn : Int) :
    (turnLoop cond body step turn).length =
      (loopTest cond (body.length + step.length + 1)).length + body.length + step.length + 1 := by
  simp only [turnLoop, List.length_append, List.length_singleton, Fragment.length_settle,
    Nat.add_assoc]

@[simp] theorem length_testLoop (cond body : Fragment) :
    (testLoop cond body).length =
      (loopTest (some cond) (body.length + 1)).length + body.length + 1 := by
  rw [testLoop_eq_turnLoop, length_turnLoop]
  rfl

@[simp] theorem length_stepLoop (cond : Option Fragment) (body step : Fragment) :
    (stepLoop cond body step).length =
      (loopTest cond (body.length + step.length + 1)).length + body.length + step.length + 1 := by
  rw [stepLoop_eq_turnLoop, length_turnLoop]

@[simp] theorem length_choice_none (cond yes : Fragment) :
    (choice cond yes none).length = (loopTest (some cond) yes.length).length + yes.length := by
  rw [choice_none_eq, List.length_append]

@[simp] theorem length_choice_some (cond yes no : Fragment) :
    (choice cond yes (some no)).length =
      (loopTest (some cond) (yes.length + 1)).length + yes.length + 1 + no.length := by
  rw [choice_some_eq, List.length_append, List.length_append, List.length_cons]
  omega

/-! ## Fragments alike -/

/-- A relation between instructions to which it does not matter where jumps go. -/
structure Likeness (R : Instr Target → Instr Target → Prop) : Prop where
  mapTarget : ∀ {first second : Instr Target}, R first second → ∀ f : Target → Target,
    R (first.mapTarget f) (second.mapTarget f)
  jump : ∀ target, R (.jump target) (.jump target)
  jumpIfFalse : ∀ target, R (.jumpIfFalse target) (.jumpIfFalse target)

namespace Likeness

variable {R : Instr Target → Instr Target → Prop}
  {cond cond' yes yes' body body' step step' : Fragment}

theorem settle (hlike : Likeness R) (h : List.Forall₂ R body body') (places : Places) :
    List.Forall₂ R (body.settle places) (body'.settle places) := by
  -- Behind the first instruction the rest is settled from the next index on.
  have hshift : ∀ start : Nat,
      List.Forall₂ R
        (body.mapIdx fun index instr => instr.mapTarget (Target.settle places ↑(index + start)))
        (body'.mapIdx fun index instr =>
          instr.mapTarget (Target.settle places ↑(index + start))) := by
    induction h with
    | nil => exact fun _ => .nil
    | cons hhead _ ih =>
      intro start
      rw [List.mapIdx_cons, List.mapIdx_cons]
      refine .cons (hlike.mapTarget hhead _) ?_
      simpa only [Nat.add_assoc, Nat.add_comm 1] using ih (1 + start)
  exact hshift 0

theorem choice (hlike : Likeness R) {no no' : Option Fragment} (hcond : List.Forall₂ R cond cond')
    (hyes : List.Forall₂ R yes yes') (hno : Option.Rel (List.Forall₂ R) no no') :
    List.Forall₂ R (choice cond yes no) (choice cond' yes' no') := by
  cases hno with
  | none =>
    rw [Code.choice, Code.choice, hyes.length_eq]
    exact List.rel_append hcond (.cons (hlike.jumpIfFalse _) hyes)
  | some hno =>
    rw [Code.choice, Code.choice, hyes.length_eq, hno.length_eq]
    exact List.rel_append (List.rel_append hcond (.cons (hlike.jumpIfFalse _) hyes))
      (.cons (hlike.jump _) hno)

theorem loopTest (hlike : Likeness R) {cond cond' : Option Fragment}
    (hcond : Option.Rel (List.Forall₂ R) cond cond') (behind : Nat) :
    List.Forall₂ R (loopTest cond behind) (loopTest cond' behind) := by
  cases hcond with
  | none => exact .nil
  | some hcond => exact List.rel_append hcond (.cons (hlike.jumpIfFalse _) .nil)

theorem turnLoop (hlike : Likeness R) {cond cond' : Option Fragment}
    (hcond : Option.Rel (List.Forall₂ R) cond cond') (hbody : List.Forall₂ R body body')
    (hstep : List.Forall₂ R step step') (turn : Int) :
    List.Forall₂ R (turnLoop cond body step turn) (turnLoop cond' body' step' turn) := by
  have hround : List.Forall₂ R
      (Code.loopTest cond (body.length + step.length + 1) ++
        (body.settle (.ofLoop ↑(body.length + step.length + 1) turn) ++ step))
      (Code.loopTest cond' (body.length + step.length + 1) ++
        (body'.settle (.ofLoop ↑(body.length + step.length + 1) turn) ++ step')) :=
    List.rel_append (hlike.loopTest hcond _) (List.rel_append (hlike.settle hbody _) hstep)
  dsimp only [Code.turnLoop]
  rw [← hbody.length_eq, ← hstep.length_eq, ← hround.length_eq]
  exact List.rel_append hround (.cons (hlike.jump _) .nil)

theorem testLoop (hlike : Likeness R) (hcond : List.Forall₂ R cond cond')
    (hbody : List.Forall₂ R body body') :
    List.Forall₂ R (testLoop cond body) (testLoop cond' body') := by
  have htest := hlike.loopTest (.some hcond) (body.length + 1)
  rw [testLoop_eq_turnLoop, testLoop_eq_turnLoop, ← hbody.length_eq, htest.length_eq]
  exact hlike.turnLoop (.some hcond) hbody .nil _

theorem stepLoop (hlike : Likeness R) {cond cond' : Option Fragment}
    (hcond : Option.Rel (List.Forall₂ R) cond cond') (hbody : List.Forall₂ R body body')
    (hstep : List.Forall₂ R step step') :
    List.Forall₂ R (stepLoop cond body step) (stepLoop cond' body' step') := by
  rw [stepLoop_eq_turnLoop, stepLoop_eq_turnLoop, ← hbody.length_eq]
  exact hlike.turnLoop hcond hbody hstep _

end Likeness

theorem forall₂_getD {R : Instr Target → Instr Target → Prop} {first second : Option Fragment}
    (h : Option.Rel (List.Forall₂ R) first second) :
    List.Forall₂ R (first.getD []) (second.getD []) := by
  cases h with
  | none => exact .nil
  | some h => exact h

/-! ## Finished code -/

/-- The instructions of finished code are those of the fragment, one by one. -/
theorem link?_eq_some_iff {fragment : Fragment} {code : List (Instr Nat)} :
    fragment.link? = some code ↔ List.Forall₂
      (fun (numbered : Instr Target × Nat) instr => numbered.1.link? numbered.2 = some instr)
      fragment.zipIdx code :=
  mapM_eq_some_iff

theorem length_link? {fragment : Fragment} {code : List (Instr Nat)}
    (h : fragment.link? = some code) : code.length = fragment.length := by
  have hlength := (link?_eq_some_iff.mp h).length_eq
  simpa using hlength.symm

/-- An instruction that can be finished has no open roles. -/
theorem Instr.eq_of_link? {index : Nat} {instr : Instr Target} {finished : Instr Nat}
    (exits : Exits) (h : instr.link? index = some finished) :
    finished = instr.mapTarget (Target.place exits index) := by
  have hplace : ∀ {target : Target} {place : Nat}, target.index? index = some place →
      place = target.place exits index := by
    intro target place hplace
    cases target with
    | apart distance =>
      simp only [Target.index?] at hplace
      split at hplace
      · exact (Option.some.inj hplace).symm
      · exact absurd hplace (by simp)
    | loopEnd | loopNext | bodyEnd => exact absurd hplace (by simp [Target.index?])
  cases instr with
  | jump target | jumpIfFalse target =>
    obtain ⟨place, htarget, rfl⟩ := Option.map_eq_some_iff.mp h
    rw [hplace htarget]
    rfl
  | _ => exact (Option.some.inj h).symm

/-- A finished fragment stands in its code from the first instruction on. -/
theorem placed_of_link? {fragment : Fragment} {code : List (Instr Nat)} (exits : Exits)
    (h : fragment.link? = some code) : Placed code exits 0 fragment := by
  intro index instr hinstr
  rw [Nat.zero_add]
  have hall := link?_eq_some_iff.mp h
  have hnumbered : fragment.zipIdx[index]? = some (instr, index) := by
    simp [List.getElem?_zipIdx, hinstr]
  have hlt : index < code.length := by
    rw [length_link? h]
    exact (List.getElem?_eq_some_iff.mp hinstr).1
  have hlink := hall.get (i := index) (by simpa [length_link? h] using hlt) hlt
  rw [List.getElem?_eq_getElem hlt]
  obtain ⟨hbound, heq⟩ := List.getElem?_eq_some_iff.mp hnumbered
  simp only [List.get_eq_getElem, heq] at hlink
  rw [Instr.eq_of_link? exits hlink]

/-- Every instruction of finished code was one of the fragment. -/
theorem exists_source_of_link? {fragment : Fragment} {code : List (Instr Nat)} (exits : Exits)
    (h : fragment.link? = some code) {index : Nat} {instr : Instr Nat}
    (hinstr : code[index]? = some instr) :
    ∃ source, fragment[index]? = some source ∧
      instr = source.mapTarget (Target.place exits index) := by
  have hlt : index < fragment.length := by
    rw [← length_link? h]
    exact (List.getElem?_eq_some_iff.mp hinstr).1
  have hsource := List.getElem?_eq_getElem hlt
  have hplaced := placed_of_link? exits h index _ hsource
  rw [Nat.zero_add] at hplaced
  exact ⟨_, hsource, Option.some.inj (hinstr.symm.trans hplaced)⟩

end RoomForge.Code
