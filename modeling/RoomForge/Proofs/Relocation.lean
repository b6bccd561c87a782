import RoomForge.Proofs.Emission
import RoomForge.Proofs.Placement

set_option autoImplicit false

/-! # Code in another frame

The body of an inlined function is compiled wherever the function is called, in the frame of the
function around the call (specification, section 4.3). What is taken of that frame and which
function it belongs to differ from call to call. The code does not differ, except that its slots are
counted from the first one that is free at the call: `stmtMoves` and, for whole expansions,
`expandCall_moved`.
-/

namespace RoomForge

/-! ## Computations that both succeed -/

/-- Two computations have related results if both succeed. -/
def OkRelated {ε α β : Type} (R : α → β → Prop) (first : Except ε α) (second : Except ε β) : Prop :=
  ∀ a b, first = .ok a → second = .ok b → R a b

namespace OkRelated

variable {ε α β γ δ : Type} {R : α → β → Prop} {S : γ → δ → Prop} {first : Except ε α}
  {second : Except ε β}

theorem ok {a : α} {b : β} (h : R a b) :
    OkRelated R (.ok a : Except ε α) (.ok b : Except ε β) := by
  intro a' b' ha hb
  rwa [← Except.ok.inj ha, ← Except.ok.inj hb]

theorem error_left {fault : ε} : OkRelated R (.error fault) second :=
  fun _ _ hfirst _ => nomatch hfirst

theorem error_right {fault : ε} : OkRelated R first (.error fault) :=
  fun _ _ _ hsecond => nomatch hsecond

theorem bind {f : α → Except ε γ} {g : β → Except ε δ} (h : OkRelated R first second)
    (hnext : ∀ a b, R a b → OkRelated S (f a) (g b)) :
    OkRelated S (first >>= f) (second >>= g) := by
  intro c d hc hd
  obtain ⟨a, ha, hrest⟩ := bind_eq_ok_iff.mp hc
  obtain ⟨b, hb, hrest'⟩ := bind_eq_ok_iff.mp hd
  exact hnext a b (h a b ha hb) c d hrest hrest'

end OkRelated

end RoomForge

namespace RoomForge.Code

open RoomForge.Script

/-! ## Code that differs in slots -/

/-- The slot that an instruction reads or writes. -/
def Instr.slot? {τ : Type} : Instr τ → Option UInt8
  | .loadLocal slot | .storeLocal slot => some slot
  | _ => none

@[simp] theorem Instr.slot?_mapTarget {τ σ : Type} (f : τ → σ) (instr : Instr τ) :
    (instr.mapTarget f).slot? = instr.slot? := by
  cases instr <;> rfl

/-- Slots at the same distance from two bases, among the first `taken` ones. -/
def SlotsMoved (base base' taken : Nat) (slot slot' : UInt8) : Prop :=
  ∃ offset < taken, slot.toNat = base + offset ∧ slot'.toNat = base' + offset

/-- The same instruction, or two that use slots at the same distance from two bases. -/
inductive Instr.Moved {τ : Type} (base base' taken : Nat) : Instr τ → Instr τ → Prop where
  | same (instr : Instr τ) (h : instr.slot? = none) : Moved base base' taken instr instr
  | load {slot slot' : UInt8} (h : SlotsMoved base base' taken slot slot') :
      Moved base base' taken (.loadLocal slot) (.loadLocal slot')
  | store {slot slot' : UInt8} (h : SlotsMoved base base' taken slot slot') :
      Moved base base' taken (.storeLocal slot) (.storeLocal slot')

/-- Code that differs in nothing but slots, which lie at the same distance from two bases. -/
abbrev CodeMoved (base base' taken : Nat) : Fragment → Fragment → Prop :=
  List.Forall₂ (Instr.Moved base base' taken)

section

variable {base base' taken more : Nat}

theorem SlotsMoved.mono {slot slot' : UInt8} (h : SlotsMoved base base' taken slot slot')
    (hle : taken ≤ more) : SlotsMoved base base' more slot slot' := by
  obtain ⟨offset, hlt, hslots⟩ := h
  exact ⟨offset, Nat.lt_of_lt_of_le hlt hle, hslots⟩

/-- Slots counted from later bases. -/
theorem SlotsMoved.nested {slot slot' : UInt8}
    (h : SlotsMoved (base + taken) (base' + taken) more slot slot') :
    SlotsMoved base base' (taken + more) slot slot' := by
  obtain ⟨offset, hlt, hslot, hslot'⟩ := h
  exact ⟨taken + offset, by omega, by omega, by omega⟩

theorem Instr.Moved.map {τ : Type} {base base' taken other other' more : Nat}
    {first second : Instr τ}
    (hslots : ∀ slot slot', SlotsMoved base base' taken slot slot' →
      SlotsMoved other other' more slot slot')
    (h : Instr.Moved base base' taken first second) :
    Instr.Moved other other' more first second := by
  cases h with
  | same _ h => exact .same first h
  | load h => exact .load (hslots _ _ h)
  | store h => exact .store (hslots _ _ h)

theorem CodeMoved.mono {first second : Fragment} (h : CodeMoved base base' taken first second)
    (hle : taken ≤ more) : CodeMoved base base' more first second :=
  h.imp fun _ _ hinstr => hinstr.map fun _ _ hslots => hslots.mono hle

theorem CodeMoved.mono_choice {first second : Option Fragment}
    (h : Option.Rel (CodeMoved base base' taken) first second) (hle : taken ≤ more) :
    Option.Rel (CodeMoved base base' more) first second := by
  cases h with
  | none => exact .none
  | some h => exact .some (h.mono hle)

theorem CodeMoved.nested {first second : Fragment}
    (h : CodeMoved (base + taken) (base' + taken) more first second) :
    CodeMoved base base' (taken + more) first second :=
  h.imp fun _ _ hinstr => hinstr.map fun _ _ => SlotsMoved.nested

theorem Instr.Moved.mapTarget {τ σ : Type} {first second : Instr τ}
    (h : Instr.Moved base base' taken first second) (f : τ → σ) :
    Instr.Moved base base' taken (first.mapTarget f) (second.mapTarget f) := by
  cases h with
  | load h => exact .load h
  | store h => exact .store h
  | same _ h =>
    refine .same _ ?_
    cases first <;> first | rfl | exact absurd h (by simp [Instr.slot?])

/-- The slots of instructions that differ in slots alone. -/
theorem Instr.Moved.slots {base base' taken : Nat} {instr : Instr Target}
    (h : Instr.Moved base base' taken instr instr) {slot : UInt8} (hslot : slot ∈ instr.slot?) :
    SlotsMoved base base' taken slot slot := by
  cases h with
  | same _ hnone =>
    rw [hnone] at hslot
    exact absurd hslot (by simp)
  | load h | store h =>
    obtain rfl := Option.some.inj hslot
    exact h

theorem movedLikeness (base base' taken : Nat) : Likeness (Instr.Moved base base' taken) where
  mapTarget h f := h.mapTarget f
  jump _ := .same _ rfl
  jumpIfFalse _ := .same _ rfl

/-! ## Names that differ in slots -/

/-- The same meaning, or two variables whose slots lie at the same distance from two bases. -/
inductive Meaning.Moved (base base' taken : Nat) : Meaning → Meaning → Prop where
  | constant (value : Int) : Moved base base' taken (.constant value) (.constant value)
  | slot {slot slot' : UInt8} (h : SlotsMoved base base' taken slot slot') :
      Moved base base' taken (.slot slot) (.slot slot')
  | global (id : UInt16) : Moved base base' taken (.global id) (.global id)
  | builtin (builtin : Builtin) : Moved base base' taken (.builtin builtin) (.builtin builtin)
  | routine (routine : Routine) : Moved base base' taken (.routine routine) (.routine routine)

/-- Frames that declare the same names, with slots at the same distance from two bases. -/
structure Frame.Moved (base base' taken : Nat) (first second : Frame) : Prop where
  kind_eq : first.kind = second.kind
  constants_eq : first.constants = second.constants
  routines_eq : first.routines = second.routines
  locals : List.Forall₂
    (fun entry entry' => entry.1 = entry'.1 ∧ SlotsMoved base base' taken entry.2 entry'.2)
    first.locals second.locals

/-- Scopes that declare the same names, with slots at the same distance from two bases. -/
abbrev ScopesMoved (base base' taken : Nat) : Scope → Scope → Prop :=
  List.Forall₂ (Frame.Moved base base' taken)

theorem Frame.Moved.mono {first second : Frame} (h : Frame.Moved base base' taken first second)
    (hle : taken ≤ more) : Frame.Moved base base' more first second where
  kind_eq := h.kind_eq
  constants_eq := h.constants_eq
  routines_eq := h.routines_eq
  locals := h.locals.imp fun _ _ hentry => ⟨hentry.1, hentry.2.mono hle⟩

theorem Frame.Moved.find? {first second : Frame} (h : Frame.Moved base base' taken first second)
    (name : String) :
    Option.Rel (Meaning.Moved base base' taken) (first.find? name) (second.find? name) := by
  have hlocals := h.locals
  unfold Frame.find?
  rw [h.constants_eq, h.routines_eq]
  generalize first.locals = locals, second.locals = locals' at hlocals
  induction hlocals with
  | nil =>
    simp only [List.find?_nil]
    cases second.constants.find? name with
    | some constant => exact .some (.constant constant.value)
    | none =>
      cases second.routines.find? name with
      | some routine => exact .some (.routine routine)
      | none => exact .none
  | @cons entry entry' rest rest' hentry _ ih =>
    rw [List.find?_cons, List.find?_cons, hentry.1]
    cases entry'.1 == name with
    | true => exact .some (.slot hentry.2)
    | false => exact ih

namespace ScopesMoved

variable {scope scope' : Scope}

theorem mono (h : ScopesMoved base base' taken scope scope') (hle : taken ≤ more) :
    ScopesMoved base base' more scope scope' :=
  h.imp fun _ _ hframe => hframe.mono hle

theorem resolve? (h : ScopesMoved base base' taken scope scope') (name : String) :
    Option.Rel (Meaning.Moved base base' taken) (scope.resolve? name) (scope'.resolve? name) := by
  induction h with
  | nil =>
    rw [Scope.resolve?]
    cases Engine.global? name with
    | some id => exact .some (.global id)
    | none =>
      cases Engine.builtin? name with
      | some builtin => exact .some (.builtin builtin)
      | none => exact .none
  | @cons frame frame' outer outer' hframe _ ih =>
    have hfind := hframe.find? name
    rw [Scope.resolve?, Scope.resolve?]
    generalize frame.find? name = found, frame'.find? name = found' at hfind
    cases hfind with
    | none => exact ih
    | some hmeaning => exact .some hmeaning

theorem inLoop_eq (h : ScopesMoved base base' taken scope scope') :
    scope.inLoop = scope'.inLoop := by
  induction h with
  | nil => rfl
  | cons hframe _ ih => rw [Scope.inLoop, Scope.inLoop, hframe.kind_eq, ih]

/-- The names of a room without variables are the same for all bases. -/
theorem room {room : Scope} (hroom : ∀ frame ∈ room, frame.locals = []) :
    ScopesMoved base base' taken room room := by
  refine List.forall₂_same.mpr fun frame hframe => ⟨rfl, rfl, rfl, ?_⟩
  rw [hroom frame hframe]
  exact .nil

theorem push (h : ScopesMoved base base' taken scope scope') (kind : FrameKind) :
    ScopesMoved base base' taken (scope.push kind) (scope'.push kind) :=
  .cons ⟨rfl, rfl, rfl, .nil⟩ h

theorem declareConst (h : ScopesMoved base base' taken scope scope') (constant : Constant) :
    ScopesMoved base base' taken (scope.declareConst constant) (scope'.declareConst constant) := by
  cases h with
  | nil => exact .nil
  | cons hframe houter =>
    refine .cons ⟨hframe.kind_eq, ?_, hframe.routines_eq, hframe.locals⟩ houter
    exact congrArg (fun constants => constants.push constant) hframe.constants_eq

theorem declareLocal (h : ScopesMoved base base' taken scope scope') (name : String)
    {slot slot' : UInt8} (hslots : SlotsMoved base base' taken slot slot') :
    ScopesMoved base base' taken (scope.declareLocal name slot)
      (scope'.declareLocal name slot') := by
  cases h with
  | nil => exact .nil
  | cons hframe houter =>
    exact .cons ⟨hframe.kind_eq, hframe.constants_eq, hframe.routines_eq,
      .cons ⟨rfl, hslots⟩ hframe.locals⟩ houter

end ScopesMoved

/-! ## Expressions -/

/-- Pieces of code in front of which `taken` slots are taken from two bases on, and behind which
the same number of them is. -/
def PiecesMoved (base base' taken : Nat) (first second : Fragment × Nat) : Prop :=
  ∃ more, taken ≤ more ∧ first.2 = base + more ∧ second.2 = base' + more ∧
    CodeMoved base base' more first.1 second.1

/-- Settings in which calls are expanded to the same code. -/
structure SettingsMoved (base base' : Nat) (setting setting' : Setting) : Prop where
  inlined_eq : setting.inlined = setting'.inlined
  expand : ∀ routine taken, OkRelated (PiecesMoved base base' taken)
    (setting.expand routine (base + taken)) (setting'.expand routine (base' + taken))

/-- Code of an expression that differs in nothing but slots. -/
structure ExprsMoved (base base' taken : Nat) (first second : ExprCode) : Prop where
  piece : PiecesMoved base base' taken (first.back, first.next) (second.back, second.next)
  value_eq : first.value = second.value

end

section

variable {base base' taken : Nat} {setting setting' : Setting} {scope scope' : Scope}
  {site site' : Site}

/-- One more instruction that uses no slot. -/
theorem PiecesMoved.cons {back back' : Fragment} {next next' : Nat}
    (h : PiecesMoved base base' taken (back, next) (back', next')) (instr : Instr Target)
    (hslot : instr.slot? = none) :
    PiecesMoved base base' taken (instr :: back, next) (instr :: back', next') := by
  obtain ⟨more, hle, hnext, hnext', hcode⟩ := h
  exact ⟨more, hle, hnext, hnext', .cons (.same instr hslot) hcode⟩

/-- A single instruction takes no slot. -/
theorem PiecesMoved.single {instr instr' : Instr Target}
    (h : Instr.Moved base base' taken instr instr') :
    PiecesMoved base base' taken ([instr], base + taken) ([instr'], base' + taken) :=
  ⟨taken, Nat.le_refl taken, rfl, rfl, .cons h .nil⟩

theorem pushNumber_moved (value : Int) :
    OkRelated (Instr.Moved base base' taken) (pushNumber site value) (pushNumber site' value) := by
  intro instr instr' hinstr hinstr'
  rw [(pushNumber_ok hinstr).1, (pushNumber_ok hinstr').1]
  exact .same _ rfl

theorem pushName_moved (hscope : ScopesMoved base base' taken scope scope') (name : String) :
    OkRelated (Instr.Moved base base' taken) (pushName site scope name)
      (pushName site' scope' name) := by
  have hname := hscope.resolve? name
  unfold pushName
  generalize scope.resolve? name = first, scope'.resolve? name = second at hname
  cases hname with
  | none => exact .error_left
  | some hmeaning =>
    cases hmeaning with
    | constant value => exact pushNumber_moved value
    | slot h => exact .ok (.load h)
    | global id => exact .ok (.same _ rfl)
    | builtin | routine => exact .error_left

theorem storeName_moved (hscope : ScopesMoved base base' taken scope scope') (name : String) :
    OkRelated (Instr.Moved base base' taken) (storeName site scope name)
      (storeName site' scope' name) := by
  have hname := hscope.resolve? name
  unfold storeName
  generalize scope.resolve? name = first, scope'.resolve? name = second at hname
  cases hname with
  | none => exact .error_left
  | some hmeaning =>
    cases hmeaning with
    | slot h => exact .ok (.store h)
    | global id => exact .ok (.same _ rfl)
    | constant | builtin | routine => exact .error_left

theorem requireValue_moved {compiled compiled' : ExprCode}
    (h : ExprsMoved base base' taken compiled compiled') (expr : Expr) :
    OkRelated (PiecesMoved base base' taken) (requireValue site expr compiled)
      (requireValue site' expr compiled') := by
  unfold requireValue
  rw [h.value_eq]
  split
  · exact .ok h.piece
  · exact .error_left

theorem callRoutine_moved (hsetting : SettingsMoved base base' setting setting') (name : String)
    (routine : Routine) (argc taken : Nat) :
    OkRelated (ExprsMoved base base' taken)
      (callRoutine setting site name routine argc (base + taken))
      (callRoutine setting' site' name routine argc (base' + taken)) := by
  unfold callRoutine
  split
  · exact .error_left
  · split
    · refine (hsetting.expand routine taken).bind ?_
      rintro ⟨code, next⟩ ⟨code', next'⟩ ⟨more, hle, hnext, hnext', hcode⟩
      exact .ok ⟨⟨more, hle, hnext, hnext', List.rel_reverse hcode⟩, rfl⟩
    · cases routine.number with
      | none => exact .error_left
      | some number => exact .ok ⟨.single (.same _ rfl), rfl⟩

/-- Compiling the expression in two frames gives the same code, if both succeed. -/
def ExprMoves (base base' : Nat) (setting setting' : Setting) (expr : Expr) : Prop :=
  ∀ (scope scope' : Scope) (taken line : Nat), ScopesMoved base base' taken scope scope' →
    OkRelated (ExprsMoved base base' taken) (compileExpr setting scope line expr (base + taken))
      (compileExpr setting' scope' line expr (base' + taken))

theorem ExprMoves.operand {expr : Expr} (h : ExprMoves base base' setting setting' expr)
    (hscope : ScopesMoved base base' taken scope scope') (line : Nat) :
    OkRelated (PiecesMoved base base' taken)
      (compileExpr setting scope line expr (base + taken) >>=
        requireValue (setting.site line) expr)
      (compileExpr setting' scope' line expr (base' + taken) >>=
        requireValue (setting'.site line) expr) :=
  (h scope scope' taken line hscope).bind fun _ _ hcompiled => requireValue_moved hcompiled expr

theorem compileArgs_moved {args : List Expr}
    (h : ∀ arg ∈ args, ExprMoves base base' setting setting' arg)
    (hscope : ScopesMoved base base' taken scope scope') (line : Nat) :
    OkRelated (PiecesMoved base base' taken) (compileArgs setting scope line args (base + taken))
      (compileArgs setting' scope' line args (base' + taken)) := by
  induction args generalizing taken with
  | nil => exact .ok ⟨taken, Nat.le_refl taken, rfl, rfl, .nil⟩
  | cons arg rest ih =>
    rw [List.forall_mem_cons] at h
    rw [compileArgs, compileArgs, ← bind_assoc, ← bind_assoc]
    refine (h.1.operand hscope line).bind ?_
    rintro ⟨back, _⟩ ⟨back', _⟩ ⟨middle, hmiddle, rfl, rfl, hback⟩
    refine (ih h.2 (hscope.mono hmiddle)).bind ?_
    rintro ⟨rest, _⟩ ⟨rest', _⟩ ⟨more, hmore, rfl, rfl, hrest⟩
    exact .ok ⟨more, Nat.le_trans hmiddle hmore, rfl, rfl, List.rel_append hrest (hback.mono hmore)⟩

theorem exprMoves (hsetting : SettingsMoved base base' setting setting') (expr : Expr) :
    ExprMoves base base' setting setting' expr := by
  induction expr using Expr.induction with
  | int value =>
    intro scope scope' taken line hscope
    rw [compileExpr, compileExpr]
    exact (pushNumber_moved value).bind fun _ _ hpush => .ok ⟨.single hpush, rfl⟩
  | str text =>
    intro scope scope' taken line hscope
    rw [compileExpr, compileExpr]
    exact .ok ⟨.single (.same _ rfl), rfl⟩
  | ident name =>
    intro scope scope' taken line hscope
    rw [compileExpr, compileExpr]
    exact (pushName_moved hscope name).bind fun _ _ hpush => .ok ⟨.single hpush, rfl⟩
  | call name args ih =>
    intro scope scope' taken line hscope
    have hname := hscope.resolve? name
    rw [compileExpr, compileExpr]
    generalize scope.resolve? name = first, scope'.resolve? name = second at hname
    cases hname with
    | none => exact .error_left
    | some hmeaning =>
      cases hmeaning with
      | constant | slot | global => exact .error_left
      | routine routine => exact callRoutine_moved hsetting name routine args.length taken
      | builtin builtin =>
        dsimp only
        split
        · exact .error_left
        · refine (compileArgs_moved ih hscope line).bind ?_
          rintro ⟨back, next⟩ ⟨back', next'⟩ hback
          exact .ok ⟨hback.cons _ rfl, rfl⟩
  | unary op operand ih =>
    intro scope scope' taken line hscope
    rw [compileExpr, compileExpr, ← bind_assoc, ← bind_assoc]
    refine (ih.operand hscope line).bind ?_
    rintro ⟨back, next⟩ ⟨back', next'⟩ hback
    exact .ok ⟨hback.cons _ rfl, rfl⟩
  | binary op left right ihLeft ihRight =>
    intro scope scope' taken line hscope
    rw [compileExpr, compileExpr, ← bind_assoc, ← bind_assoc]
    refine (ihLeft.operand hscope line).bind ?_
    rintro ⟨leftBack, _⟩ ⟨leftBack', _⟩ ⟨middle, hmiddle, rfl, rfl, hleft⟩
    dsimp only
    rw [← bind_assoc, ← bind_assoc]
    refine (ihRight.operand (hscope.mono hmiddle) line).bind ?_
    rintro ⟨rightBack, _⟩ ⟨rightBack', _⟩ ⟨more, hmore, rfl, rfl, hright⟩
    have hboth : PiecesMoved base base' taken (rightBack ++ leftBack, base + more)
        (rightBack' ++ leftBack', base' + more) :=
      ⟨more, Nat.le_trans hmiddle hmore, rfl, rfl, List.rel_append hright (hleft.mono hmore)⟩
    exact .ok ⟨hboth.cons _ rfl, rfl⟩

theorem compileValue_moved (hsetting : SettingsMoved base base' setting setting')
    (hscope : ScopesMoved base base' taken scope scope') (line : Nat) (expr : Expr) :
    OkRelated (PiecesMoved base base' taken) (compileValue setting scope line expr (base + taken))
      (compileValue setting' scope' line expr (base' + taken)) := by
  rw [compileValue, compileValue, ← bind_assoc, ← bind_assoc]
  refine ((exprMoves hsetting expr).operand hscope line).bind ?_
  rintro ⟨back, next⟩ ⟨back', next'⟩ ⟨more, hle, hnext, hnext', hback⟩
  exact .ok ⟨more, hle, hnext, hnext', List.rel_reverse hback⟩

theorem compileInit_moved (hsetting : SettingsMoved base base' setting setting')
    (hscope : ScopesMoved base base' taken scope scope') (line : Nat) (init : Option Expr) :
    OkRelated (PiecesMoved base base' taken) (compileInit setting scope line init (base + taken))
      (compileInit setting' scope' line init (base' + taken)) := by
  cases init with
  | none => exact .ok (.single (.same _ rfl))
  | some init => exact compileValue_moved hsetting hscope line init

/-- Pieces of code that may be missing, which differ in nothing but slots. -/
def ChoicesMoved (base base' taken : Nat) (first second : Option Fragment × Nat) : Prop :=
  ∃ more, taken ≤ more ∧ first.2 = base + more ∧ second.2 = base' + more ∧
    Option.Rel (CodeMoved base base' more) first.1 second.1

theorem compileCond_moved (hsetting : SettingsMoved base base' setting setting')
    (hscope : ScopesMoved base base' taken scope scope') (line : Nat) (cond : Option Expr) :
    OkRelated (ChoicesMoved base base' taken) (compileCond setting scope line cond (base + taken))
      (compileCond setting' scope' line cond (base' + taken)) := by
  cases cond with
  | none => exact .ok ⟨taken, Nat.le_refl taken, rfl, rfl, .none⟩
  | some cond =>
    refine (compileValue_moved hsetting hscope line cond).bind ?_
    rintro ⟨code, next⟩ ⟨code', next'⟩ ⟨more, hle, hnext, hnext', hcode⟩
    exact .ok ⟨more, hle, hnext, hnext', .some hcode⟩

/-! ## Statements -/

/-- Code of a statement that differs in nothing but slots, in front of the same names. -/
def StmtsMoved (base base' taken : Nat) (first second : StmtCode) : Prop :=
  ∃ more, taken ≤ more ∧ first.next = base + more ∧ second.next = base' + more ∧
    CodeMoved base base' more first.code second.code ∧
    ScopesMoved base base' more first.scope second.scope

/-- Compiling the statement in two frames gives the same code, if both succeed. -/
def StmtMoves (base base' : Nat) (setting setting' : Setting) (stmt : Stmt) : Prop :=
  ∀ (scope scope' : Scope) (taken : Nat), ScopesMoved base base' taken scope scope' →
    OkRelated (StmtsMoved base base' taken) (compileStmt setting stmt scope (base + taken))
      (compileStmt setting' stmt scope' (base' + taken))

theorem compileStmts_moved {body : List Stmt}
    (h : ∀ stmt ∈ body, StmtMoves base base' setting setting' stmt)
    {before before' : List Fragment}
    (hbefore : List.Forall₂ (CodeMoved base base' taken) before before')
    (hscope : ScopesMoved base base' taken scope scope') :
    OkRelated (StmtsMoved base base' taken)
      (compileStmts setting body scope (base + taken) before)
      (compileStmts setting' body scope' (base' + taken) before') := by
  induction body generalizing scope scope' taken before before' with
  | nil =>
    refine .ok ⟨taken, Nat.le_refl taken, rfl, rfl, ?_, hscope⟩
    exact List.rel_flatten (List.rel_reverse hbefore)
  | cons stmt rest ih =>
    rw [List.forall_mem_cons] at h
    rw [compileStmts, compileStmts]
    refine (h.1 scope scope' taken hscope).bind ?_
    rintro ⟨code, middle, _⟩ ⟨code', middle', _⟩ ⟨more, hmore, rfl, rfl, hcode, hmiddle⟩
    have hall : List.Forall₂ (CodeMoved base base' more) (code :: before) (code' :: before') :=
      .cons hcode (hbefore.imp fun _ _ hfragment => hfragment.mono hmore)
    intro last last' hlast hlast'
    obtain ⟨most, hmost, hrest⟩ := ih h.2 hall hmiddle last last' hlast hlast'
    exact ⟨most, Nat.le_trans hmore hmost, hrest⟩

/-- Statements that may be missing, whose code differs in nothing but slots. -/
def OptionalsMoved (base base' taken : Nat) (first second : Option Fragment × StmtCode) : Prop :=
  ∃ more, taken ≤ more ∧ first.2.next = base + more ∧ second.2.next = base' + more ∧
    Option.Rel (CodeMoved base base' more) first.1 second.1 ∧
    ScopesMoved base base' more first.2.scope second.2.scope

theorem compileOptional_moved {choice : Option Stmt}
    (h : ∀ stmt ∈ choice, StmtMoves base base' setting setting' stmt)
    (hscope : ScopesMoved base base' taken scope scope') :
    OkRelated (OptionalsMoved base base' taken)
      (compileOptional setting choice scope (base + taken))
      (compileOptional setting' choice scope' (base' + taken)) := by
  cases choice with
  | none => exact .ok ⟨taken, Nat.le_refl taken, rfl, rfl, .none, hscope⟩
  | some stmt =>
    rw [compileOptional, compileOptional]
    refine (h stmt rfl scope scope' taken hscope).bind ?_
    rintro compiled compiled' ⟨more, hmore, hnext, hnext', hcode, hbehind⟩
    exact .ok ⟨more, hmore, hnext, hnext', .some hcode, hbehind⟩

theorem stmtMoves (hsetting : SettingsMoved base base' setting setting') (stmt : Stmt) :
    StmtMoves base base' setting setting' stmt := by
  induction stmt using Stmt.induction with
  | block line body ih =>
    intro scope scope' taken hscope
    rw [compileStmt, compileStmt]
    refine (compileStmts_moved ih .nil (hscope.push .block)).bind ?_
    rintro compiled compiled' ⟨more, hmore, hnext, hnext', hcode, _⟩
    exact .ok ⟨more, hmore, hnext, hnext', hcode, hscope.mono hmore⟩
  | var line name init =>
    intro scope scope' taken hscope
    rw [compileStmt, compileStmt]
    have hslot : OkRelated (SlotsMoved base base' (taken + 1))
        (newSlot setting.function (base + taken)) (newSlot setting'.function (base' + taken)) :=
      fun slot slot' hslot hslot' =>
        ⟨taken, Nat.lt_succ_self taken, (newSlot_ok hslot).2, (newSlot_ok hslot').2⟩
    refine hslot.bind fun slot slot' hslots => ?_
    refine (compileInit_moved hsetting (hscope.mono (Nat.le_succ taken)) line init).bind ?_
    rintro ⟨code, _⟩ ⟨code', _⟩ ⟨more, hmore, rfl, rfl, hcode⟩
    have htaken : taken ≤ more := Nat.le_of_succ_le hmore
    exact .ok ⟨more, htaken, rfl, rfl,
      List.rel_append hcode (.cons (.store (hslots.mono hmore)) .nil),
      (hscope.mono htaken).declareLocal name (hslots.mono hmore)⟩
  | const line name value =>
    intro scope scope' taken hscope
    rw [compileStmt, compileStmt]
    exact .ok ⟨taken, Nat.le_refl taken, rfl, rfl, .nil, hscope.declareConst _⟩
  | assign line name value =>
    intro scope scope' taken hscope
    rw [compileStmt, compileStmt]
    refine (storeName_moved hscope name).bind fun store store' hstore => ?_
    refine (compileValue_moved hsetting hscope line value).bind ?_
    rintro ⟨code, _⟩ ⟨code', _⟩ ⟨more, hmore, rfl, rfl, hcode⟩
    have hstored : Instr.Moved base base' more store store' :=
      hstore.map fun _ _ hslots => hslots.mono hmore
    exact .ok ⟨more, hmore, rfl, rfl, List.rel_append hcode (.cons hstored .nil),
      hscope.mono hmore⟩
  | eval line expr =>
    intro scope scope' taken hscope
    rw [compileStmt, compileStmt]
    refine (exprMoves hsetting expr scope scope' taken line hscope).bind ?_
    rintro compiled compiled' ⟨⟨more, hmore, hnext, hnext', hback⟩, hvalue⟩
    have hcode : CodeMoved base base' more compiled.code compiled'.code := List.rel_reverse hback
    refine .ok ⟨more, hmore, hnext, hnext', ?_, hscope.mono hmore⟩
    dsimp only
    rw [hvalue]
    split
    · exact List.rel_append hcode (.cons (.same _ rfl) .nil)
    · exact hcode
  | ifElse line cond yes no ihYes ihNo =>
    intro scope scope' taken hscope
    rw [compileStmt, compileStmt]
    refine (compileValue_moved hsetting hscope line cond).bind ?_
    rintro ⟨test, _⟩ ⟨test', _⟩ ⟨tested, htested, rfl, rfl, htest⟩
    refine (ihYes _ _ tested ((hscope.mono htested).push .block)).bind ?_
    rintro ⟨yes, _, _⟩ ⟨yes', _, _⟩ ⟨middle, hmiddle, rfl, rfl, hyes, _⟩
    have hle : taken ≤ middle := Nat.le_trans htested hmiddle
    refine (compileOptional_moved ihNo ((hscope.mono hle).push .block)).bind ?_
    rintro last last' ⟨more, hmore, hnext, hnext', hno, _⟩
    refine .ok ⟨more, Nat.le_trans hle hmore, hnext, hnext', ?_,
      hscope.mono (Nat.le_trans hle hmore)⟩
    exact (movedLikeness base base' more).choice (htest.mono (Nat.le_trans hmiddle hmore))
      (hyes.mono hmore) hno
  | whileLoop line cond body ih =>
    intro scope scope' taken hscope
    rw [compileStmt, compileStmt]
    refine (compileValue_moved hsetting hscope line cond).bind ?_
    rintro ⟨test, _⟩ ⟨test', _⟩ ⟨tested, htested, rfl, rfl, htest⟩
    refine (ih _ _ tested ((hscope.mono htested).push .loop)).bind ?_
    rintro inside inside' ⟨more, hmore, hnext, hnext', hinside, _⟩
    refine .ok ⟨more, Nat.le_trans htested hmore, hnext, hnext', ?_,
      hscope.mono (Nat.le_trans htested hmore)⟩
    exact (movedLikeness base base' more).testLoop (htest.mono hmore) hinside
  | forLoop line init cond step body ihInit ihStep ihBody =>
    intro scope scope' taken hscope
    rw [compileStmt, compileStmt]
    refine (compileOptional_moved ihInit (hscope.push .block)).bind ?_
    rintro ⟨initCode, head⟩ ⟨initCode', head'⟩ ⟨begun, hbegun, hnext, hnext', hinit, hhead⟩
    dsimp only at hnext hnext' hinit hhead ⊢
    rw [hnext, hnext']
    refine (compileCond_moved hsetting hhead _ cond).bind ?_
    rintro ⟨test, _⟩ ⟨test', _⟩ ⟨tested, htested, rfl, rfl, htest⟩
    refine (ihBody _ _ tested ((ScopesMoved.mono hhead htested).push .loop)).bind ?_
    rintro ⟨inside, _, _⟩ ⟨inside', _, _⟩ ⟨turned, hturned, rfl, rfl, hinside, _⟩
    have hstepped : begun ≤ turned := Nat.le_trans htested hturned
    refine (compileOptional_moved ihStep (ScopesMoved.mono hhead hstepped)).bind ?_
    rintro ⟨stepCode, last⟩ ⟨stepCode', last'⟩ ⟨more, hmore, hnext, hnext', hstep, _⟩
    have hle : taken ≤ more := Nat.le_trans hbegun (Nat.le_trans hstepped hmore)
    refine .ok ⟨more, hle, hnext, hnext', ?_, hscope.mono hle⟩
    have hfirst : CodeMoved base base' more (initCode.getD []) (initCode'.getD []) :=
      CodeMoved.mono (forall₂_getD hinit) (Nat.le_trans hstepped hmore)
    exact List.rel_append hfirst ((movedLikeness base base' more).stepLoop
      (CodeMoved.mono_choice htest (Nat.le_trans hturned hmore)) (hinside.mono hmore)
      (forall₂_getD hstep))
  | breakLoop line | continueLoop line =>
    intro scope scope' taken hscope
    rw [compileStmt, compileStmt, hscope.inLoop_eq]
    split
    · exact .ok ⟨taken, Nat.le_refl taken, rfl, rfl, .cons (.same _ rfl) .nil, hscope⟩
    · exact .error_left
  | leave line =>
    intro scope scope' taken hscope
    rw [compileStmt, compileStmt, hsetting.inlined_eq]
    refine .ok ⟨taken, Nat.le_refl taken, rfl, rfl, .cons (.same _ ?_) .nil, hscope⟩
    split <;> rfl

end

/-! ## Functions -/

/-- Pieces of code that are counted from later bases. -/
theorem PiecesMoved.nested {base base' taken : Nat} {first second : Fragment × Nat}
    (h : PiecesMoved (base + taken) (base' + taken) 0 first second) :
    PiecesMoved base base' taken first second := by
  obtain ⟨more, _, hnext, hnext', hcode⟩ := h
  exact ⟨taken + more, by omega, by omega, by omega, CodeMoved.nested hcode⟩

/-- An inlined function is expanded to the same code wherever it is called, except for the first
slot that is free there. -/
theorem expandCall_moved {room : Scope} (hroom : ∀ frame ∈ room, frame.locals = [])
    (function function' : String) (depth depth' : Nat) (calls calls' : List String)
    (routine : Routine) (next next' : Nat) :
    OkRelated (PiecesMoved next next' 0) (expandCall function room depth calls routine next)
      (expandCall function' room depth' calls' routine next') := by
  induction depth generalizing depth' calls calls' routine next next' with
  | zero => exact .error_left
  | succ depth ih =>
    cases depth' with
    | zero => exact .error_right
    | succ depth' =>
      rw [expandCall, expandCall]
      split
      · exact .error_left
      · split
        · exact .error_right
        -- A call inside of the body counts its slots from what the body has taken in front of it.
        · have hsetting : SettingsMoved next next'
              ⟨function, true, expandCall function room depth (routine.name :: calls)⟩
              ⟨function', true, expandCall function' room depth' (routine.name :: calls')⟩ :=
            ⟨rfl, fun callee taken piece piece' hpiece hpiece' =>
              (ih depth' _ _ callee _ _ piece piece' hpiece hpiece').nested⟩
          refine (stmtMoves hsetting routine.body _ _ 0 ((ScopesMoved.room hroom).push _)).bind ?_
          rintro body body' ⟨more, hmore, hnext, hnext', hcode, _⟩
          refine .ok ⟨more, hmore, hnext, hnext', ?_⟩
          rw [hcode.length_eq]
          exact (movedLikeness next next' more).settle hcode _

end RoomForge.Code
