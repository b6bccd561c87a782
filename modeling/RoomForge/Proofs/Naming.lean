import Mathlib.Data.List.Forall2
import RoomForge.Code.Scope
import RoomForge.Proofs.Interpreter

set_option autoImplicit false

/-! # Names at compile time and at run time

A scope binds variables to slots, an environment binds them to cells. `Env.Linked` says that both
know the same names, and that each variable's cell and slot are paired; `Kept` says that paired
cells and slots hold the same value. The pairs may include those of callers, whose variables a body
does not know but must not touch: an inlined body shares the frame of its caller (specification,
section 4.3). `Kept.assign` and `Kept.alloc` are what a step of a run keeps.
-/

namespace RoomForge.Code

open RoomForge.Script

/-- The cells of variables, each with the slot that holds its value. -/
abbrev Pairing := List (Nat × UInt8)

/-! ## Linked names -/

/-- A level knows the names of a frame. -/
structure Level.Linked (pairs : Pairing) (level : Level) (frame : Frame) : Prop where
  constants : level.constants = frame.constants.entries
  routines : level.routines = frame.routines.entries
  cells : List.Forall₂
    (fun (cell : String × Nat) (slot : String × UInt8) =>
      cell.1 = slot.1 ∧ (cell.2, slot.2) ∈ pairs)
    level.cells frame.locals

/-- An environment knows the names of a scope, level by level. -/
def Env.Linked (pairs : Pairing) (env : Env) (scope : Scope) : Prop :=
  List.Forall₂ (Level.Linked pairs) env scope

/-- A name stands for the same at run time as at compile time. -/
inductive Referent.Same (pairs : Pairing) : Referent → Meaning → Prop where
  | constant (value : Int) : Same pairs (.constant value) (.constant value)
  | paired {index : Nat} {slot : UInt8} (h : (index, slot) ∈ pairs) :
      Same pairs (.cell index) (.slot slot)
  | global (id : UInt16) : Same pairs (.global id) (.global id)
  | routine (routine : Routine) : Same pairs (.routine routine) (.routine routine)
  | builtin (builtin : Builtin) : Same pairs (.builtin builtin) (.builtin builtin)

/-- The first entries of a name correspond in lists that correspond. -/
theorem find?_of_forall₂ {pairs : Pairing} {cells : List (String × Nat)}
    {slots : List (String × UInt8)} (name : String)
    (h : List.Forall₂ (fun (cell : String × Nat) (slot : String × UInt8) =>
      cell.1 = slot.1 ∧ (cell.2, slot.2) ∈ pairs) cells slots) :
    Option.Rel (fun (cell : String × Nat) (slot : String × UInt8) => (cell.2, slot.2) ∈ pairs)
      (cells.find? fun entry => entry.1 == name) (slots.find? fun entry => entry.1 == name) := by
  induction h with
  | nil => exact .none
  | cons hhead _ ih =>
    obtain ⟨hname, hpair⟩ := hhead
    rw [List.find?_cons, List.find?_cons, hname]
    split
    · exact .some hpair
    · exact ih

theorem Level.Linked.find? {pairs : Pairing} {level : Level} {frame : Frame}
    (h : level.Linked pairs frame) (name : String) :
    Option.Rel (Referent.Same pairs) (level.find? name) (frame.find? name) := by
  unfold Level.find? Frame.find?
  have hvariables := find?_of_forall₂ name h.cells
  revert hvariables
  generalize (level.cells.find? fun entry => entry.1 == name) = cell
  generalize (frame.locals.find? fun entry => entry.1 == name) = slot
  intro hvariables
  cases hvariables with
  | some hpair => exact .some (.paired hpair)
  | none =>
    rw [NameTable.find?_eq, NameTable.find?_eq, ← h.constants, ← h.routines]
    simp only
    cases level.constants.find? fun constant => constant.name == name with
    | some constant => exact .some (.constant _)
    | none =>
      cases level.routines.find? fun routine => routine.name == name with
      | some routine => exact .some (.routine routine)
      | none => exact .none

namespace Env.Linked

variable {pairs : Pairing} {env : Env} {scope : Scope}

/-- Linked names are looked up alike. -/
theorem lookup (h : env.Linked pairs scope) (name : String) :
    Option.Rel (Referent.Same pairs) (env.lookup name) (scope.resolve? name) := by
  induction h with
  | nil =>
    unfold Env.lookup Scope.resolve?
    cases Engine.global? name with
    | some id => exact .some (.global id)
    | none =>
      cases Engine.builtin? name with
      | some builtin => exact .some (.builtin builtin)
      | none => exact .none
  | cons hlevel _ ih =>
    unfold Env.lookup Scope.resolve?
    have hfind := hlevel.find? name
    revert hfind
    generalize Level.find? _ name = referent
    generalize Frame.find? _ name = meaning
    intro hfind
    cases hfind with
    | some hsame => exact .some hsame
    | none => exact ih

/-- What a name stands for at run time, from what it stands for at compile time. -/
theorem lookup_of_resolve? (h : env.Linked pairs scope) {name : String} {meaning : Meaning}
    (hname : scope.resolve? name = some meaning) :
    ∃ referent, env.lookup name = some referent ∧ referent.Same pairs meaning := by
  have hrel := h.lookup name
  rw [hname] at hrel
  cases hlookup : env.lookup name with
  | none => rw [hlookup] at hrel; cases hrel
  | some referent =>
    rw [hlookup] at hrel
    cases hrel with
    | some hsame => exact ⟨referent, rfl, hsame⟩

theorem mono {more : Pairing} (h : env.Linked pairs scope) (hsub : pairs ⊆ more) :
    env.Linked more scope := by
  refine List.Forall₂.imp (fun level frame hlevel => ?_) h
  refine ⟨hlevel.constants, hlevel.routines, ?_⟩
  exact hlevel.cells.imp fun cell slot hpair => ⟨hpair.1, hsub hpair.2⟩

theorem enter (h : env.Linked pairs scope) (kind : FrameKind) :
    env.enter.Linked pairs (scope.push kind) :=
  .cons ⟨rfl, rfl, .nil⟩ h

theorem bindConst (h : env.Linked pairs scope) (constant : Constant) :
    (env.bindConst constant).Linked pairs (scope.declareConst constant) := by
  cases h with
  | nil => exact .nil
  | cons hlevel houter =>
    refine .cons ⟨?_, hlevel.routines, hlevel.cells⟩ houter
    simp [hlevel.constants]

theorem bindCell (h : env.Linked pairs scope) (name : String) {index : Nat} {slot : UInt8}
    (hpair : (index, slot) ∈ pairs) :
    (env.bindCell name index).Linked pairs (scope.declareLocal name slot) := by
  cases h with
  | nil => exact .nil
  | cons hlevel houter =>
    exact .cons ⟨hlevel.constants, hlevel.routines, .cons ⟨rfl, hpair⟩ hlevel.cells⟩ houter

theorem ofRoom (constants : List Constant) (routines : List Routine) :
    (Env.ofRoom constants routines).Linked pairs (Scope.ofRoom constants routines) := by
  refine .cons ⟨?_, ?_, .nil⟩ .nil
  · simp
  · simp

end Env.Linked

/-! ## Kept values -/

/-- The slots are below `next`, and no cell or slot is paired twice. -/
structure Pairing.Sound (pairs : Pairing) (next : Nat) : Prop where
  below : ∀ pair ∈ pairs, pair.2.toNat < next
  unique : ∀ pair ∈ pairs, ∀ other ∈ pairs, pair.1 = other.1 ↔ pair.2 = other.2

/-- Paired cells and slots hold the same values. -/
def Kept {V : Type} (pairs : Pairing) (cells : List V) (locals : UInt8 → V) : Prop :=
  ∀ pair ∈ pairs, cells[pair.1]? = some (locals pair.2)

namespace Pairing.Sound

variable {pairs : Pairing} {next behind : Nat}

theorem nil : Pairing.Sound [] next where
  below := by simp
  unique := by simp

theorem mono (h : pairs.Sound next) (hle : next ≤ behind) : pairs.Sound behind where
  below pair hpair := Nat.lt_of_lt_of_le (h.below pair hpair) hle
  unique := h.unique

/-- The next slot is not taken. -/
theorem ne_slot (h : pairs.Sound next) {slot : UInt8} (hslot : slot.toNat = next) :
    ∀ pair ∈ pairs, pair.2 ≠ slot := by
  intro pair hpair heq
  have hbelow := h.below pair hpair
  rw [heq, hslot] at hbelow
  exact Nat.lt_irrefl next hbelow

/-- A new variable has a cell and a slot of its own. -/
theorem cons (h : pairs.Sound next) {index : Nat} {slot : UInt8}
    (hindex : ∀ pair ∈ pairs, pair.1 ≠ index) (hslot : slot.toNat = next) (hlt : next < behind) :
    Pairing.Sound ((index, slot) :: pairs) behind := by
  have hslots := h.ne_slot hslot
  constructor
  · intro pair hpair
    rcases List.mem_cons.mp hpair with rfl | hold
    · rwa [hslot]
    · exact Nat.lt_trans (h.below pair hold) hlt
  · intro pair hpair other hother
    rcases List.mem_cons.mp hpair with rfl | hold <;> rcases List.mem_cons.mp hother with rfl | hnew
    · simp
    · exact iff_of_false (hindex other hnew).symm (hslots other hnew).symm
    · exact iff_of_false (hindex pair hold) (hslots pair hold)
    · exact h.unique pair hold other hnew

end Pairing.Sound

namespace Kept

variable {V : Type} {pairs : Pairing} {next : Nat} {cells : List V} {locals : UInt8 → V}

theorem ne_length (h : Kept pairs cells locals) :
    ∀ pair ∈ pairs, pair.1 ≠ cells.length := by
  intro pair hpair
  exact Nat.ne_of_lt (List.getElem?_eq_some_iff.mp (h pair hpair)).1

/-- Assigning to a variable changes its cell and its slot alone. -/
theorem assign (h : Kept pairs cells locals) (hsound : pairs.Sound next) {index : Nat}
    {slot : UInt8} (hpair : (index, slot) ∈ pairs) (value : V) :
    Kept pairs (cells.set index value) (Function.update locals slot value) := by
  intro other hother
  have hsame := hsound.unique (index, slot) hpair other hother
  by_cases heq : index = other.1
  · have hlt : index < cells.length := (List.getElem?_eq_some_iff.mp (h _ hpair)).1
    rw [← heq, ← hsame.mp heq, Function.update_self]
    simp [hlt]
  · have hne : other.2 ≠ slot := fun hslot => heq (hsame.mpr hslot.symm)
    rw [Function.update_of_ne hne, List.getElem?_set_ne heq]
    exact h other hother

/-- A new variable changes no other one. -/
theorem alloc (h : Kept pairs cells locals) (hsound : pairs.Sound next) {slot : UInt8}
    (hslot : slot.toNat = next) (value : V) :
    Kept ((cells.length, slot) :: pairs) (cells ++ [value])
      (Function.update locals slot value) := by
  intro pair hpair
  rcases List.mem_cons.mp hpair with rfl | hold
  · simp
  · rw [Function.update_of_ne (hsound.ne_slot hslot pair hold)]
    rw [List.getElem?_append_left (List.getElem?_eq_some_iff.mp (h pair hold)).1]
    exact h pair hold

end Kept

end RoomForge.Code
