import RoomForge.Proofs.Mentions
import RoomForge.Proofs.Renumbering

set_option autoImplicit false

/-! # The same calls in two rooms

Two rooms that have the same functions under different numbers give every call of a tree a callee of
their own. `StmtMentions.alike` compares what a tree mentions in the one and in the other room: the
same texts, and at the same places calls by the same names, whose callees are twins.

What a tree mentions is a relation that leaves the slots of variables open, so the two sides may
have numbered them differently. No callee depends on a slot: `Beside` relates scopes that have the
same names in the same frames, whatever slots these stand for. `Proofs.Renumbering` compares the
code of the two sides, but knows nothing of where a number in it comes from; the two are put
together in `Proofs.Reordering`.
-/

namespace RoomForge.Code

open RoomForge.Script

/-! ## Scopes with the same names -/

/-- A meaning that a call can have. -/
def Meaning.IsCallee : Meaning → Prop
  | .routine _ | .builtin _ => True
  | .constant _ | .slot _ | .global _ => False

/-- Frames without functions that hold the same names. -/
structure Frame.SameNames (first second : Frame) : Prop where
  locals_eq : first.locals.map Prod.fst = second.locals.map Prod.fst
  constants_eq : first.constants = second.constants
  no_routines : first.routines.entries = []
  no_routines' : second.routines.entries = []

theorem Frame.find?_eq_none_iff {frame : Frame} (h : frame.routines.entries = []) (name : String) :
    frame.find? name = none ↔
      name ∉ frame.locals.map Prod.fst ∧ frame.constants.find? name = none := by
  have hroutine : frame.routines.find? name = none := by
    rw [NameTable.find?_eq, h]
    rfl
  have hlocal : (frame.locals.find? fun entry => entry.1 == name) = none ↔
      name ∉ frame.locals.map Prod.fst := by
    rw [List.find?_eq_none, List.mem_map]
    simp only [beq_iff_eq, not_exists, not_and]
  rw [← hlocal, Frame.find?]
  cases frame.locals.find? fun entry => entry.1 == name with
  | some entry => simp
  | none => cases frame.constants.find? name <;> simp [hroutine]

theorem Frame.not_isCallee_of_find? {frame : Frame} (h : frame.routines.entries = [])
    {name : String} {meaning : Meaning} (hfind : frame.find? name = some meaning) :
    ¬ meaning.IsCallee := by
  unfold Frame.find? at hfind
  split at hfind
  · exact Option.some.inj hfind ▸ id
  · split at hfind
    · exact Option.some.inj hfind ▸ id
    · rw [NameTable.find?_eq, h] at hfind
      exact absurd hfind (by simp)

section

variable {numbers : UInt16 → UInt16 → Prop} {room room' : Scope}

/-- A callee is found behind the frames that hold no functions, and so is its counterpart. -/
theorem resolve?_callee {inner inner' : List Frame} (h : List.Forall₂ Frame.SameNames inner inner')
    {name : String} {meaning : Meaning} (hcallee : meaning.IsCallee)
    (hname : Scope.resolve? (inner ++ room) name = some meaning) (room' : Scope) :
    Scope.resolve? room name = some meaning ∧
      Scope.resolve? (inner' ++ room') name = Scope.resolve? room' name := by
  induction h with
  | nil => exact ⟨hname, rfl⟩
  | @cons frame frame' inner inner' hframe _ ih =>
    rw [List.cons_append, Scope.resolve?] at hname
    cases hfind : frame.find? name with
    | some found =>
      rw [hfind] at hname
      obtain rfl := Option.some.inj hname
      exact absurd hcallee (Frame.not_isCallee_of_find? hframe.no_routines hfind)
    | none =>
      rw [hfind] at hname
      have hfind' : frame'.find? name = none := by
        rw [Frame.find?_eq_none_iff hframe.no_routines', ← hframe.locals_eq, ← hframe.constants_eq,
          ← Frame.find?_eq_none_iff hframe.no_routines, hfind]
      obtain ⟨hroom, hsecond⟩ := ih hname
      rw [List.cons_append, Scope.resolve?, hfind']
      exact ⟨hroom, hsecond⟩

/-- Scopes inside of two rooms whose frames hold the same names. -/
def Beside (room room' first second : Scope) : Prop :=
  ∃ frame frame' inner inner', frame.SameNames frame' ∧ List.Forall₂ Frame.SameNames inner inner' ∧
    first = (frame :: inner) ++ room ∧ second = (frame' :: inner') ++ room'

namespace Beside

variable {scope scope' : Scope}

theorem rooms (room room' : Scope) (kind : FrameKind) :
    Beside room room' (room.push kind) (room'.push kind) :=
  ⟨{ kind }, { kind }, [], [], ⟨rfl, rfl, rfl, rfl⟩, .nil, rfl, rfl⟩

theorem push (h : Beside room room' scope scope') (kind : FrameKind) :
    Beside room room' (scope.push kind) (scope'.push kind) := by
  obtain ⟨frame, frame', inner, inner', hframe, hinner, rfl, rfl⟩ := h
  exact ⟨{ kind }, { kind }, frame :: inner, frame' :: inner', ⟨rfl, rfl, rfl, rfl⟩,
    .cons hframe hinner, rfl, rfl⟩

theorem declareConst (h : Beside room room' scope scope') (constant : Constant) :
    Beside room room' (scope.declareConst constant) (scope'.declareConst constant) := by
  obtain ⟨frame, frame', inner, inner', hframe, hinner, rfl, rfl⟩ := h
  refine ⟨{ frame with constants := frame.constants.push constant },
    { frame' with constants := frame'.constants.push constant }, inner, inner',
    ⟨hframe.locals_eq, ?_, hframe.no_routines, hframe.no_routines'⟩, hinner, rfl, rfl⟩
  exact congrArg (·.push constant) hframe.constants_eq

/-- A variable of the same name may get another slot. -/
theorem declareLocal (h : Beside room room' scope scope') (name : String) (slot slot' : UInt8) :
    Beside room room' (scope.declareLocal name slot) (scope'.declareLocal name slot') := by
  obtain ⟨frame, frame', inner, inner', hframe, hinner, rfl, rfl⟩ := h
  refine ⟨{ frame with locals := (name, slot) :: frame.locals },
    { frame' with locals := (name, slot') :: frame'.locals }, inner, inner',
    ⟨?_, hframe.constants_eq, hframe.no_routines, hframe.no_routines'⟩, hinner, rfl, rfl⟩
  exact congrArg (name :: ·) hframe.locals_eq

/-- A call by a name has the same builtin in both rooms, or twins. -/
theorem callees (h : Beside room room' scope scope') (hrooms : RoomsAlike numbers room room')
    {name : String} {meaning meaning' : Meaning} (hname : scope.resolve? name = some meaning)
    (hname' : scope'.resolve? name = some meaning') (hcallee : meaning.IsCallee) :
    Meaning.Alike numbers meaning meaning' := by
  obtain ⟨frame, frame', inner, inner', hframe, hinner, rfl, rfl⟩ := h
  obtain ⟨hroom, hsecond⟩ := resolve?_callee (.cons hframe hinner) hcallee hname room'
  have hresolve := hrooms.resolve name
  rw [hroom, ← hsecond, hname'] at hresolve
  cases hresolve with
  | some halike => exact halike

end Beside

/-! ## Mentions -/

/-- The same text, or calls by the same name of functions that are twins. -/
inductive Mention.Alike (numbers : UInt16 → UInt16 → Prop) : Mention → Mention → Prop where
  | text (literal : String) : Alike numbers (.text literal) (.text literal)
  | start {name : String} {callee callee' : Routine} {number number' : UInt16}
      (h : Twins numbers callee callee') :
      Alike numbers (.start name callee number) (.start name callee' number')

mutual

theorem ExprMentions.alike (hrooms : RoomsAlike numbers room room') {scope scope' : Scope}
    (hscope : Beside room room' scope scope') {expr : Expr} {mentions mentions' : List Mention} :
    ExprMentions room scope expr mentions → ExprMentions room' scope' expr mentions' →
      List.Forall₂ (Mention.Alike numbers) mentions mentions'
  | .int .., h' => by
    cases h'
    exact .nil
  | .str _ text, h' => by
    cases h'
    exact .cons (.text text) .nil
  | .ident .., h' => by
    cases h'
    exact .nil
  | .engine hname hargs, h' => by
    cases h' with
    | engine hname' hargs' => exact hargs.alike hrooms hscope hargs'
    | start hname' | expand hname' => cases hscope.callees hrooms hname hname' trivial
  | .start hname hinlined _, h' => by
    cases h' with
    | engine hname' => cases hscope.callees hrooms hname hname' trivial
    | start hname' =>
      cases hscope.callees hrooms hname hname' trivial with
      | routine htwins => exact .cons (.start htwins) .nil
    | expand hname' hinlined' =>
      cases hscope.callees hrooms hname hname' trivial with
      | routine htwins =>
        rw [Routine.isInlined, ← htwins.kind_eq, ← Routine.isInlined, hinlined] at hinlined'
        cases hinlined'
  | .expand hname hinlined hbody, h' => by
    cases h' with
    | engine hname' => cases hscope.callees hrooms hname hname' trivial
    | start hname' hinlined' =>
      cases hscope.callees hrooms hname hname' trivial with
      | routine htwins =>
        rw [Routine.isInlined, ← htwins.kind_eq, ← Routine.isInlined, hinlined] at hinlined'
        cases hinlined'
    | expand hname' _ hbody' =>
      cases hscope.callees hrooms hname hname' trivial with
      | routine htwins =>
        rw [← htwins.body_eq] at hbody'
        exact (hbody.alike hrooms (.rooms room room' .function) hbody').1
  | .unary _ h, h' => by
    cases h' with
    | unary _ h' => exact h.alike hrooms hscope h'
  | .binary _ hleft hright, h' => by
    cases h' with
    | binary _ hleft' hright' =>
      exact List.rel_append (hleft.alike hrooms hscope hleft') (hright.alike hrooms hscope hright')

theorem RowMentions.alike (hrooms : RoomsAlike numbers room room') {scope scope' : Scope}
    (hscope : Beside room room' scope scope') {row : List Expr}
    {mentions mentions' : List Mention} :
    RowMentions room scope row mentions → RowMentions room' scope' row mentions' →
      List.Forall₂ (Mention.Alike numbers) mentions mentions'
  | .nil _, h' => by
    cases h'
    exact .nil
  | .cons hfirst hrest, h' => by
    cases h' with
    | cons hfirst' hrest' =>
      exact List.rel_append (hfirst.alike hrooms hscope hfirst') (hrest.alike hrooms hscope hrest')

/-- What a statement mentions in two rooms is alike, and so are the names behind it. -/
theorem StmtMentions.alike (hrooms : RoomsAlike numbers room room') {scope scope' : Scope}
    (hscope : Beside room room' scope scope') {stmt : Stmt} {mentions mentions' : List Mention}
    {last last' : Scope} :
    StmtMentions room scope stmt mentions last → StmtMentions room' scope' stmt mentions' last' →
      List.Forall₂ (Mention.Alike numbers) mentions mentions' ∧ Beside room room' last last'
  | .block _ h, h' => by
    cases h' with
    | block _ h' => exact ⟨(h.alike hrooms (hscope.push .block) h').1, hscope⟩
  | .var _ name slot h, h' => by
    cases h' with
    | var _ _ slot' h' => exact ⟨h.alike hrooms hscope h', hscope.declareLocal name slot slot'⟩
  | .const .., h' => by
    cases h'
    exact ⟨.nil, hscope.declareConst _⟩
  | .assign _ _ h, h' => by
    cases h' with
    | assign _ _ h' => exact ⟨h.alike hrooms hscope h', hscope⟩
  | .eval _ h, h' => by
    cases h' with
    | eval _ h' => exact ⟨h.alike hrooms hscope h', hscope⟩
  | .ifElse _ hcond hyes hno, h' => by
    cases h' with
    | ifElse _ hcond' hyes' hno' =>
      have hinner := hscope.push .block
      exact ⟨List.rel_append (List.rel_append (hcond.alike hrooms hscope hcond')
        (hyes.alike hrooms hinner hyes').1) (hno.alike hrooms hinner hno').1, hscope⟩
  | .whileLoop _ hcond hbody, h' => by
    cases h' with
    | whileLoop _ hcond' hbody' =>
      exact ⟨List.rel_append (hcond.alike hrooms hscope hcond')
        (hbody.alike hrooms (hscope.push .loop) hbody').1, hscope⟩
  | .forLoop _ hinit hcond hbody hstep, h' => by
    cases h' with
    | forLoop _ hinit' hcond' hbody' hstep' =>
      obtain ⟨hfirst, hhead⟩ := hinit.alike hrooms (hscope.push .block) hinit'
      have hsecond := hcond.alike hrooms hhead hcond'
      have hthird := (hbody.alike hrooms (hhead.push .loop) hbody').1
      have hfourth := (hstep.alike hrooms hhead hstep').1
      exact ⟨List.rel_append hfirst
        (List.rel_append (List.rel_append hsecond hthird) hfourth), hscope⟩
  | .breakLoop .., h' => by
    cases h'
    exact ⟨.nil, hscope⟩
  | .continueLoop .., h' => by
    cases h'
    exact ⟨.nil, hscope⟩
  | .leave .., h' => by
    cases h'
    exact ⟨.nil, hscope⟩

theorem BodyMentions.alike (hrooms : RoomsAlike numbers room room') {scope scope' : Scope}
    (hscope : Beside room room' scope scope') {body : List Stmt} {mentions mentions' : List Mention}
    {last last' : Scope} :
    BodyMentions room scope body mentions last → BodyMentions room' scope' body mentions' last' →
      List.Forall₂ (Mention.Alike numbers) mentions mentions' ∧ Beside room room' last last'
  | .nil _, h' => by
    cases h'
    exact ⟨.nil, hscope⟩
  | .cons hfirst hrest, h' => by
    cases h' with
    | cons hfirst' hrest' =>
      obtain ⟨hbefore, hmiddle⟩ := hfirst.alike hrooms hscope hfirst'
      obtain ⟨hbehind, hlast⟩ := hrest.alike hrooms hmiddle hrest'
      exact ⟨List.rel_append hbefore hbehind, hlast⟩

end

end

end RoomForge.Code
