import RoomForge.Code.Instruction

set_option autoImplicit false

/-! # Fragments of code

While a function is compiled its code is made of fragments that can be put anywhere: a jump names
its target by the distance to it, counted in instructions, or by a role that some enclosing fragment
settles later. `link?` turns a finished fragment into instructions whose jumps name the index of
their target.

Section 4.3 of the specification speaks of the finished instructions only. That they are the ones of
a writer that patches its jumps is shown in `Proofs.OnePass` and the modules behind it.
-/

namespace RoomForge.Code

/-- Where a jump of a fragment goes. -/
inductive Target where
  /-- So many instructions behind the jump, or before it. -/
  | apart (distance : Int)
  /-- Behind the innermost loop around the jump. -/
  | loopEnd
  /-- To the next turn of the innermost loop around the jump. -/
  | loopNext
  /-- Behind the inlined body around the jump. -/
  | bodyEnd
  deriving DecidableEq, Repr, Inhabited

/-- Code that does not depend on where it is put. -/
abbrev Fragment := List (Instr Target)

/-- The places of the roles that a fragment settles, counted in instructions from its first. -/
abbrev Places := Target → Option Int

/-- The places that a loop settles: behind it and at its next turn. -/
def Places.ofLoop (ending turn : Int) : Places
  | .loopEnd => some ending
  | .loopNext => some turn
  | .bodyEnd | .apart _ => none

/-- The place that an inlined body settles: behind it. -/
def Places.ofBody (ending : Int) : Places
  | .bodyEnd => some ending
  | .loopEnd | .loopNext | .apart _ => none

/-- The target of a jump at `index`, once some roles have their places. -/
def Target.settle (places : Places) (index : Int) (target : Target) : Target :=
  match places target with
  | some place => .apart (place - index)
  | none => target

/-- Settles the jumps of a fragment to the roles that have places. -/
def Fragment.settle (code : Fragment) (places : Places) : Fragment :=
  code.mapIdx fun index instr => instr.mapTarget (Target.settle places index)

/-- The index of a target, seen from the instruction at `index`. -/
def Target.index? (index : Nat) : Target → Option Nat
  | .apart distance =>
    let place := (index : Int) + distance
    if 0 ≤ place then some place.toNat else none
  | _ => none

/-- An instruction at `index` with its target as an index. -/
def Instr.link? (index : Nat) : Instr Target → Option (Instr Nat)
  | .jump target => (target.index? index).map .jump
  | .jumpIfFalse target => (target.index? index).map .jumpIfFalse
  | instr => some (instr.mapTarget fun _ => 0)

/-- A fragment as the whole code of a function; fails if a jump has no place to go. -/
def Fragment.link? (code : Fragment) : Option (List (Instr Nat)) :=
  code.zipIdx.mapM fun (instr, index) => instr.link? index

@[simp] theorem Fragment.length_settle (code : Fragment) (places : Places) :
    (code.settle places).length = code.length := by
  simp [Fragment.settle]

end RoomForge.Code
