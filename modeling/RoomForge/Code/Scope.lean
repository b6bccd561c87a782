import RoomForge.Code.Engine
import RoomForge.Code.NameTable

set_option autoImplicit false

/-! # Scopes

The context chain (specification, section 4.2). A scope is a chain of frames, innermost first; the
outermost frame holds the names of a room. A name is looked up from the inside out, and the engine's
names come last.

In one frame variables come before constants and these before functions, whatever was declared
first. So a constant does not hide a variable of its name in the same frame, although it is declared
later; `Proofs.Shadowing` says where this differs from going by the latest declaration.
-/

namespace RoomForge.Code

open RoomForge.Script

/-- What opened a frame. -/
inductive FrameKind where
  | room
  | function
  | block
  | loop
  deriving DecidableEq, Repr, Inhabited

/-- The names declared at one level. -/
structure Frame where
  kind : FrameKind
  constants : NameTable Constant Constant.name := {}
  /-- The slots of variables, the latest first. -/
  locals : List (String × UInt8) := []
  /-- The functions of a room. The first one of a name hides the others. -/
  routines : NameTable Routine Routine.name := {}
  deriving Inhabited

/-- A chain of frames, innermost first. -/
abbrev Scope := List Frame

/-- What a name stands for. -/
inductive Meaning where
  | constant (value : Int)
  /-- A local variable, by its slot. -/
  | slot (index : UInt8)
  /-- A variable of the engine, by its number. -/
  | global (id : UInt16)
  | routine (routine : Routine)
  | builtin (builtin : Builtin)
  deriving Repr, Inhabited

/-- What a name stands for in one frame. A local variable hides a constant of its frame, and both
hide a function. -/
def Frame.find? (frame : Frame) (name : String) : Option Meaning :=
  match frame.locals.find? fun entry => entry.1 == name with
  | some entry => some (.slot entry.2)
  | none =>
    match frame.constants.find? name with
    | some constant => some (.constant constant.value)
    | none => (frame.routines.find? name).map .routine

namespace Scope

/-- The scope of a room: its constants, later ones hiding earlier ones, and its functions. -/
def ofRoom (constants : List Constant) (routines : List Routine) : Scope :=
  [{ kind := .room, constants := .ofList constants.reverse, routines := .ofList routines }]

/-- Opens a frame. -/
def push (scope : Scope) (kind : FrameKind) : Scope :=
  { kind } :: scope

/-- Declares a constant in the innermost frame. -/
def declareConst (scope : Scope) (constant : Constant) : Scope :=
  scope.modifyHead fun frame => { frame with constants := frame.constants.push constant }

/-- Declares a local variable in the innermost frame. -/
def declareLocal (scope : Scope) (name : String) (slot : UInt8) : Scope :=
  scope.modifyHead fun frame => { frame with locals := (name, slot) :: frame.locals }

/-- What a name stands for: the innermost frame that knows it decides. -/
def resolve? : Scope → String → Option Meaning
  | [], name =>
    match Engine.global? name with
    | some id => some (.global id)
    | none => (Engine.builtin? name).map .builtin
  | frame :: outer, name =>
    match frame.find? name with
    | some meaning => some meaning
    | none => resolve? outer name

/-- Whether a loop encloses the scope within the same function. -/
def inLoop : Scope → Bool
  | [] => false
  | frame :: outer =>
    match frame.kind with
    | .loop => true
    | .block => inLoop outer
    | .function | .room => false

/-- Every function that the scope knows. -/
def routines (scope : Scope) : List Routine :=
  scope.flatMap (·.routines.entries)

/-- A function found by its name is one of the scope's. -/
theorem mem_routines_of_resolve? {scope : Scope} {name : String} {routine : Routine}
    (h : scope.resolve? name = some (.routine routine)) :
    routine ∈ scope.routines ∧ routine.name = name := by
  induction scope with
  | nil =>
    simp only [resolve?] at h
    split at h
    · exact absurd h (by simp)
    · obtain ⟨builtin, _, hbuiltin⟩ := Option.map_eq_some_iff.mp h
      exact absurd hbuiltin (by simp)
  | cons frame outer ih =>
    simp only [resolve?] at h
    split at h
    · next meaning hfind =>
      obtain rfl := Option.some.inj h
      unfold Frame.find? at hfind
      split at hfind
      · exact absurd hfind (by simp)
      · split at hfind
        · exact absurd hfind (by simp)
        · obtain ⟨found, hmember, heq⟩ := Option.map_eq_some_iff.mp hfind
          obtain rfl := Meaning.routine.inj heq
          rw [NameTable.find?_eq] at hmember
          refine ⟨?_, by simpa using List.find?_some hmember⟩
          exact List.mem_flatMap.mpr ⟨frame, List.mem_cons_self, List.mem_of_find?_eq_some hmember⟩
    · obtain ⟨hmember, hname⟩ := ih h
      refine ⟨?_, hname⟩
      rw [routines, List.flatMap_cons]
      exact List.mem_append_right _ hmember

end Scope

end RoomForge.Code
