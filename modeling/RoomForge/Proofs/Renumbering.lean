import RoomForge.Proofs.Decoding
import RoomForge.Proofs.Emission
import RoomForge.Proofs.Placement

set_option autoImplicit false

/-! # Code under other numbers

Two rooms can have the same functions under different numbers. A tree that is compiled under the
names of the one and of the other gives the same faults, and code that differs in nothing but the
numbers of the scripts it starts: `compileListing_alike` for instructions and `encode_alike` for
bytes, whose count is the same. Which numbers stand for which function is a parameter here, a
relation between numbers; `Proofs.CallSites` has the callees.
-/

namespace RoomForge

/-! ## Computations that end alike -/

/-- Two computations end with the same fault, or with results that are related. -/
inductive EndsAlike {ε α β : Type} (R : α → β → Prop) : Except ε α → Except ε β → Prop where
  | ok {first : α} {second : β} (h : R first second) : EndsAlike R (.ok first) (.ok second)
  | error (e : ε) : EndsAlike R (.error e) (.error e)

namespace EndsAlike

variable {ε α β γ δ : Type} {R : α → β → Prop} {S : γ → δ → Prop} {first : Except ε α}
  {second : Except ε β}

theorem bind {f : α → Except ε γ} {g : β → Except ε δ} (h : EndsAlike R first second)
    (hnext : ∀ a b, R a b → EndsAlike S (f a) (g b)) :
    EndsAlike S (first >>= f) (second >>= g) := by
  cases h with
  | ok h => exact hnext _ _ h
  | error e => exact .error e

theorem exists_ok (h : EndsAlike R first second) {a : α} (ha : first = .ok a) :
    ∃ b, second = .ok b ∧ R a b := by
  subst ha
  cases h with
  | ok h => exact ⟨_, rfl, h⟩

theorem refl {R : α → α → Prop} (h : ∀ a, R a a) (first : Except ε α) :
    EndsAlike R first first := by
  cases first with
  | ok a => exact .ok (h a)
  | error e => exact .error e

theorem mapM {f : α → Except ε γ} {g : β → Except ε δ}
    (hstep : ∀ a b, R a b → EndsAlike S (f a) (g b)) {items : List α} {items' : List β}
    (h : List.Forall₂ R items items') :
    EndsAlike (List.Forall₂ S) (items.mapM f) (items'.mapM g) := by
  induction h with
  | nil => exact .ok .nil
  | cons hhead _ ih =>
    rw [List.mapM_cons, List.mapM_cons]
    refine (hstep _ _ hhead).bind ?_
    intro head head' hhead
    refine ih.bind ?_
    intro rest rest' hrest
    exact .ok (.cons hhead hrest)

end EndsAlike

theorem rel_mapM {α β γ δ : Type} {R : α → β → Prop} {S : γ → δ → Prop} {f : α → Option γ}
    {g : β → Option δ} (hstep : ∀ a b, R a b → Option.Rel S (f a) (g b)) {items : List α}
    {items' : List β} (h : List.Forall₂ R items items') :
    Option.Rel (List.Forall₂ S) (items.mapM f) (items'.mapM g) := by
  induction h with
  | nil => exact .some .nil
  | @cons item item' rest rest' hhead _ ih =>
    rw [List.mapM_cons, List.mapM_cons]
    have hfirst := hstep _ _ hhead
    generalize f item = first, g item' = first' at hfirst
    generalize rest.mapM f = others, rest'.mapM g = others' at ih
    cases hfirst with
    | none => exact .none
    | some hfirst =>
      cases ih with
      | none => exact .none
      | some ih => exact .some (.cons hfirst ih)

theorem forall₂_zipIdx {α β : Type} {R : α → β → Prop} {items : List α} {items' : List β}
    (h : List.Forall₂ R items items') (start : Nat) :
    List.Forall₂ (fun numbered numbered' => R numbered.1 numbered'.1 ∧ numbered.2 = numbered'.2)
      (items.zipIdx start) (items'.zipIdx start) := by
  induction h generalizing start with
  | nil => exact .nil
  | cons hhead _ ih => exact .cons ⟨hhead, rfl⟩ (ih (start + 1))

end RoomForge

namespace RoomForge.Code

open RoomForge.Script

/-! ## Code that differs in numbers -/

/-- The same instruction, or two that start scripts with related numbers. -/
inductive Instr.Alike {τ : Type} (numbers : UInt16 → UInt16 → Prop) :
    Instr τ → Instr τ → Prop where
  | same (instr : Instr τ) (h : ∀ number, instr ≠ .startScript number) : Alike numbers instr instr
  | start {first second : UInt16} (h : numbers first second) :
      Alike numbers (.startScript first) (.startScript second)

/-- Code that differs in nothing but numbers. -/
abbrev CodeAlike {τ : Type} (numbers : UInt16 → UInt16 → Prop) :
    List (Instr τ) → List (Instr τ) → Prop :=
  List.Forall₂ (Instr.Alike numbers)

variable {numbers : UInt16 → UInt16 → Prop}

theorem Instr.Alike.mapTarget {τ σ : Type} {first second : Instr τ}
    (h : Instr.Alike numbers first second) (f : τ → σ) :
    Instr.Alike numbers (first.mapTarget f) (second.mapTarget f) := by
  cases h with
  | start h => exact .start h
  | same _ h =>
    refine .same _ fun number hstart => ?_
    cases first with
    | startScript other => exact h other rfl
    | _ => exact absurd hstart (by simp [Instr.mapTarget])

theorem CodeAlike.single {instr : Instr Target} (h : ∀ number, instr ≠ .startScript number) :
    CodeAlike numbers [instr] [instr] :=
  .cons (.same instr h) .nil

/-- Numbers have nothing to do with where jumps go. -/
theorem alikeLikeness (numbers : UInt16 → UInt16 → Prop) : Likeness (Instr.Alike numbers) where
  mapTarget h f := h.mapTarget f
  jump _ := .same _ (by simp)
  jumpIfFalse _ := .same _ (by simp)

/-! ## Names that differ in numbers -/

/-- Functions that differ in nothing that code shows but their numbers. -/
structure Twins (numbers : UInt16 → UInt16 → Prop) (first second : Routine) : Prop where
  name_eq : first.name = second.name
  kind_eq : first.kind = second.kind
  body_eq : first.body = second.body
  number : Option.Rel numbers first.number second.number

/-- The same meaning, or two functions that are twins. -/
inductive Meaning.Alike (numbers : UInt16 → UInt16 → Prop) : Meaning → Meaning → Prop where
  | constant (value : Int) : Alike numbers (.constant value) (.constant value)
  | slot (index : UInt8) : Alike numbers (.slot index) (.slot index)
  | global (id : UInt16) : Alike numbers (.global id) (.global id)
  | builtin (builtin : Builtin) : Alike numbers (.builtin builtin) (.builtin builtin)
  | routine {first second : Routine} (h : Twins numbers first second) :
      Alike numbers (.routine first) (.routine second)

/-- The names of two rooms, which stand for the same things but for the numbers of functions. -/
structure RoomsAlike (numbers : UInt16 → UInt16 → Prop) (room room' : Scope) : Prop where
  resolve : ∀ name, Option.Rel (Meaning.Alike numbers) (room.resolve? name) (room'.resolve? name)
  inLoop_eq : room.inLoop = room'.inLoop
  length_eq : room.routines.length = room'.routines.length

/-- Scopes with the same frames, which hold no functions, inside of two rooms. -/
def Inside (room room' first second : Scope) : Prop :=
  ∃ frame inner, (∀ other ∈ frame :: inner, other.routines.entries = []) ∧
    first = (frame :: inner) ++ room ∧ second = (frame :: inner) ++ room'

theorem Meaning.alike_of_find? {frame : Frame} (hroutines : frame.routines.entries = [])
    {name : String} {meaning : Meaning} (h : frame.find? name = some meaning) :
    Meaning.Alike numbers meaning meaning := by
  unfold Frame.find? at h
  split at h
  · exact Option.some.inj h ▸ .slot _
  · split at h
    · exact Option.some.inj h ▸ .constant _
    · rw [NameTable.find?_eq, hroutines] at h
      exact absurd h (by simp)

section

variable {room room' first second : Scope}

theorem resolve_append (hrooms : RoomsAlike numbers room room') {frames : List Frame}
    (hframes : ∀ frame ∈ frames, frame.routines.entries = []) (name : String) :
    Option.Rel (Meaning.Alike numbers) (Scope.resolve? (frames ++ room) name)
      (Scope.resolve? (frames ++ room') name) := by
  induction frames with
  | nil => exact hrooms.resolve name
  | cons frame outer ih =>
    rw [List.cons_append, List.cons_append, Scope.resolve?, Scope.resolve?]
    cases hfind : frame.find? name with
    | some meaning =>
      exact .some (Meaning.alike_of_find? (hframes frame List.mem_cons_self) hfind)
    | none => exact ih fun other hother => hframes other (List.mem_cons_of_mem frame hother)

theorem inLoop_append (hrooms : RoomsAlike numbers room room') (frames : List Frame) :
    Scope.inLoop (frames ++ room) = Scope.inLoop (frames ++ room') := by
  induction frames with
  | nil => exact hrooms.inLoop_eq
  | cons frame outer ih => rw [List.cons_append, List.cons_append, Scope.inLoop, Scope.inLoop, ih]

namespace Inside

theorem resolve (h : Inside room room' first second) (hrooms : RoomsAlike numbers room room')
    (name : String) :
    Option.Rel (Meaning.Alike numbers) (first.resolve? name) (second.resolve? name) := by
  obtain ⟨frame, inner, hframes, rfl, rfl⟩ := h
  exact resolve_append hrooms hframes name

theorem inLoop_eq (h : Inside room room' first second) (hrooms : RoomsAlike numbers room room') :
    first.inLoop = second.inLoop := by
  obtain ⟨frame, inner, -, rfl, rfl⟩ := h
  exact inLoop_append hrooms (frame :: inner)

theorem rooms (room room' : Scope) (kind : FrameKind) :
    Inside room room' (room.push kind) (room'.push kind) :=
  ⟨{ kind }, [], by simp, rfl, rfl⟩

theorem push (h : Inside room room' first second) (kind : FrameKind) :
    Inside room room' (first.push kind) (second.push kind) := by
  obtain ⟨frame, inner, hframes, rfl, rfl⟩ := h
  refine ⟨{ kind }, frame :: inner, ?_, rfl, rfl⟩
  intro other hother
  rcases List.mem_cons.mp hother with rfl | hother
  · rfl
  · exact hframes other hother

theorem declareConst (h : Inside room room' first second) (constant : Constant) :
    Inside room room' (first.declareConst constant) (second.declareConst constant) := by
  obtain ⟨frame, inner, hframes, rfl, rfl⟩ := h
  rw [List.forall_mem_cons] at hframes
  exact ⟨{ frame with constants := frame.constants.push constant }, inner,
    List.forall_mem_cons.mpr hframes, rfl, rfl⟩

theorem declareLocal (h : Inside room room' first second) (name : String) (slot : UInt8) :
    Inside room room' (first.declareLocal name slot) (second.declareLocal name slot) := by
  obtain ⟨frame, inner, hframes, rfl, rfl⟩ := h
  rw [List.forall_mem_cons] at hframes
  exact ⟨{ frame with locals := (name, slot) :: frame.locals }, inner,
    List.forall_mem_cons.mpr hframes, rfl, rfl⟩

end Inside

end

/-! ## Expressions -/

/-- Pieces of code that differ in nothing but numbers, in front of the same free slot. -/
def PieceAlike (numbers : UInt16 → UInt16 → Prop) (first second : Fragment × Nat) : Prop :=
  CodeAlike numbers first.1 second.1 ∧ first.2 = second.2

/-- Settings in which calls are expanded alike. -/
structure SettingsAlike (numbers : UInt16 → UInt16 → Prop) (first second : Setting) : Prop where
  function_eq : first.function = second.function
  inlined_eq : first.inlined = second.inlined
  expand : ∀ routine routine', Twins numbers routine routine' → ∀ next,
    EndsAlike (PieceAlike numbers) (first.expand routine next) (second.expand routine' next)

/-- Code of an expression that differs in nothing but numbers. -/
structure ExprsAlike (numbers : UInt16 → UInt16 → Prop) (first second : ExprCode) : Prop where
  back : CodeAlike numbers first.back second.back
  next_eq : first.next = second.next
  value_eq : first.value = second.value

section

variable {room room' scope scope' : Scope} {setting setting' : Setting}

theorem SettingsAlike.site_eq (h : SettingsAlike numbers setting setting') (line : Nat) :
    setting.site line = setting'.site line := by
  rw [Setting.site, Setting.site, h.function_eq]

theorem pushNumber_alike (numbers : UInt16 → UInt16 → Prop) (site : Site) (value : Int) :
    EndsAlike (Instr.Alike numbers) (pushNumber site value) (pushNumber site value) := by
  unfold pushNumber
  split
  · exact .ok (.same _ (by simp))
  · exact .error _

theorem pushName_alike (hscope : Inside room room' scope scope')
    (hrooms : RoomsAlike numbers room room') (site : Site) (name : String) :
    EndsAlike (Instr.Alike numbers) (pushName site scope name) (pushName site scope' name) := by
  have hname := hscope.resolve hrooms name
  unfold pushName
  generalize scope.resolve? name = first, scope'.resolve? name = second at hname
  cases hname with
  | none => exact .error _
  | some hmeaning =>
    cases hmeaning with
    | constant value => exact pushNumber_alike numbers site value
    | slot index | global id => exact .ok (.same _ (by simp))
    | builtin builtin => exact .error _
    | routine h => exact .error _

theorem storeName_alike (hscope : Inside room room' scope scope')
    (hrooms : RoomsAlike numbers room room') (site : Site) (name : String) :
    EndsAlike (Instr.Alike numbers) (storeName site scope name) (storeName site scope' name) := by
  have hname := hscope.resolve hrooms name
  unfold storeName
  generalize scope.resolve? name = first, scope'.resolve? name = second at hname
  cases hname with
  | none => exact .error _
  | some hmeaning =>
    cases hmeaning with
    | slot index | global id => exact .ok (.same _ (by simp))
    | constant value => exact .error _
    | builtin builtin => exact .error _
    | routine h => exact .error _

theorem requireValue_alike {compiled compiled' : ExprCode}
    (h : ExprsAlike numbers compiled compiled') (site : Site) (expr : Expr) :
    EndsAlike (PieceAlike numbers) (requireValue site expr compiled)
      (requireValue site expr compiled') := by
  unfold requireValue
  rw [h.value_eq]
  split
  · exact .ok ⟨h.back, h.next_eq⟩
  · exact .error _

theorem callRoutine_alike (hsetting : SettingsAlike numbers setting setting')
    {routine routine' : Routine} (h : Twins numbers routine routine') (site : Site)
    (name : String) (argc next : Nat) :
    EndsAlike (ExprsAlike numbers) (callRoutine setting site name routine argc next)
      (callRoutine setting' site name routine' argc next) := by
  have hkind : routine.isInlined = routine'.isInlined := by
    rw [Routine.isInlined, Routine.isInlined, h.kind_eq]
  unfold callRoutine
  rw [hkind]
  split
  · exact .error _
  · split
    · refine (hsetting.expand routine routine' h next).bind ?_
      rintro ⟨code, next⟩ ⟨code', _⟩ ⟨hcode, rfl⟩
      exact .ok ⟨List.rel_reverse hcode, rfl, rfl⟩
    · obtain hnumber := h.number
      generalize routine.number = number, routine'.number = number' at hnumber
      cases hnumber with
      | none => exact .error _
      | some hnumber => exact .ok ⟨.cons (.start hnumber) .nil, rfl, rfl⟩

/-- Compiling the expression under the names of two rooms ends alike. -/
def ExprEndsAlike (numbers : UInt16 → UInt16 → Prop) (room room' : Scope)
    (setting setting' : Setting) (expr : Expr) : Prop :=
  ∀ (scope scope' : Scope) (line next : Nat), Inside room room' scope scope' →
    EndsAlike (ExprsAlike numbers) (compileExpr setting scope line expr next)
      (compileExpr setting' scope' line expr next)

theorem ExprEndsAlike.operand (hsetting : SettingsAlike numbers setting setting') {expr : Expr}
    (h : ExprEndsAlike numbers room room' setting setting' expr)
    (hscope : Inside room room' scope scope') (line next : Nat) :
    EndsAlike (PieceAlike numbers)
      (compileExpr setting scope line expr next >>= requireValue (setting.site line) expr)
      (compileExpr setting' scope' line expr next >>= requireValue (setting'.site line) expr) := by
  refine (h scope scope' line next hscope).bind ?_
  intro compiled compiled' hcompiled
  rw [hsetting.site_eq]
  exact requireValue_alike hcompiled _ expr

theorem compileArgs_alike (hsetting : SettingsAlike numbers setting setting') {args : List Expr}
    (h : ∀ arg ∈ args, ExprEndsAlike numbers room room' setting setting' arg)
    (hscope : Inside room room' scope scope') (line next : Nat) :
    EndsAlike (PieceAlike numbers) (compileArgs setting scope line args next)
      (compileArgs setting' scope' line args next) := by
  induction args generalizing next with
  | nil => exact .ok ⟨.nil, rfl⟩
  | cons arg rest ih =>
    rw [List.forall_mem_cons] at h
    rw [compileArgs, compileArgs, ← bind_assoc, ← bind_assoc]
    refine (h.1.operand hsetting hscope line next).bind ?_
    rintro ⟨back, next⟩ ⟨back', _⟩ ⟨hback, rfl⟩
    refine (ih h.2 next).bind ?_
    rintro ⟨rest, next⟩ ⟨rest', _⟩ ⟨hrest, rfl⟩
    exact .ok ⟨List.rel_append hrest hback, rfl⟩

theorem exprEndsAlike (hrooms : RoomsAlike numbers room room')
    (hsetting : SettingsAlike numbers setting setting') (expr : Expr) :
    ExprEndsAlike numbers room room' setting setting' expr := by
  induction expr using Expr.induction with
  | int value =>
    intro scope scope' line next hscope
    rw [compileExpr, compileExpr, hsetting.site_eq]
    refine (pushNumber_alike numbers _ value).bind ?_
    intro push push' hpush
    exact .ok ⟨.cons hpush .nil, rfl, rfl⟩
  | str text =>
    intro scope scope' line next hscope
    rw [compileExpr, compileExpr]
    exact .ok ⟨.single (by simp), rfl, rfl⟩
  | ident name =>
    intro scope scope' line next hscope
    rw [compileExpr, compileExpr, hsetting.site_eq]
    refine (pushName_alike hscope hrooms _ name).bind ?_
    intro push push' hpush
    exact .ok ⟨.cons hpush .nil, rfl, rfl⟩
  | call name args ih =>
    intro scope scope' line next hscope
    have hname := hscope.resolve hrooms name
    rw [compileExpr, compileExpr, hsetting.site_eq]
    generalize scope.resolve? name = first, scope'.resolve? name = second at hname
    cases hname with
    | none => exact .error _
    | some hmeaning =>
      cases hmeaning with
      | constant | slot | global => exact .error _
      | routine h => exact callRoutine_alike hsetting h _ name args.length next
      | builtin builtin =>
        dsimp only
        split
        · exact .error _
        · refine (compileArgs_alike hsetting ih hscope line next).bind ?_
          rintro ⟨back, next⟩ ⟨back', _⟩ ⟨hback, rfl⟩
          exact .ok ⟨.cons (.same _ (by simp)) hback, rfl, rfl⟩
  | unary op operand ih =>
    intro scope scope' line next hscope
    rw [compileExpr, compileExpr, ← bind_assoc, ← bind_assoc]
    refine (ih.operand hsetting hscope line next).bind ?_
    rintro ⟨back, next⟩ ⟨back', _⟩ ⟨hback, rfl⟩
    exact .ok ⟨.cons (.same _ (by simp)) hback, rfl, rfl⟩
  | binary op left right ihLeft ihRight =>
    intro scope scope' line next hscope
    rw [compileExpr, compileExpr, ← bind_assoc, ← bind_assoc]
    refine (ihLeft.operand hsetting hscope line next).bind ?_
    rintro ⟨leftBack, middle⟩ ⟨leftBack', _⟩ ⟨hleft, rfl⟩
    dsimp only
    rw [← bind_assoc, ← bind_assoc]
    refine (ihRight.operand hsetting hscope line middle).bind ?_
    rintro ⟨rightBack, next⟩ ⟨rightBack', _⟩ ⟨hright, rfl⟩
    exact .ok ⟨.cons (.same _ (by simp)) (List.rel_append hright hleft), rfl, rfl⟩

theorem compileValue_alike (hrooms : RoomsAlike numbers room room')
    (hsetting : SettingsAlike numbers setting setting') (hscope : Inside room room' scope scope')
    (line : Nat) (expr : Expr) (next : Nat) :
    EndsAlike (PieceAlike numbers) (compileValue setting scope line expr next)
      (compileValue setting' scope' line expr next) := by
  rw [compileValue, compileValue, ← bind_assoc, ← bind_assoc]
  refine ((exprEndsAlike hrooms hsetting expr).operand hsetting hscope line next).bind ?_
  rintro ⟨back, next⟩ ⟨back', _⟩ ⟨hback, rfl⟩
  exact .ok ⟨List.rel_reverse hback, rfl⟩

theorem compileInit_alike (hrooms : RoomsAlike numbers room room')
    (hsetting : SettingsAlike numbers setting setting') (hscope : Inside room room' scope scope')
    (line : Nat) (init : Option Expr) (next : Nat) :
    EndsAlike (PieceAlike numbers) (compileInit setting scope line init next)
      (compileInit setting' scope' line init next) := by
  cases init with
  | none => exact .ok ⟨.single (by simp), rfl⟩
  | some init => exact compileValue_alike hrooms hsetting hscope line init next

/-- Pieces of code that may be missing, which differ in nothing but numbers. -/
def ChoiceAlike (numbers : UInt16 → UInt16 → Prop) (first second : Option Fragment × Nat) : Prop :=
  Option.Rel (CodeAlike numbers) first.1 second.1 ∧ first.2 = second.2

theorem compileCond_alike (hrooms : RoomsAlike numbers room room')
    (hsetting : SettingsAlike numbers setting setting') (hscope : Inside room room' scope scope')
    (line : Nat) (cond : Option Expr) (next : Nat) :
    EndsAlike (ChoiceAlike numbers) (compileCond setting scope line cond next)
      (compileCond setting' scope' line cond next) := by
  cases cond with
  | none => exact .ok ⟨.none, rfl⟩
  | some cond =>
    refine (compileValue_alike hrooms hsetting hscope line cond next).bind ?_
    rintro ⟨code, next⟩ ⟨code', _⟩ ⟨hcode, rfl⟩
    exact .ok ⟨.some hcode, rfl⟩

/-! ## Statements -/

/-- Code of a statement that differs in nothing but numbers, in front of the same names. -/
structure StmtsAlike (numbers : UInt16 → UInt16 → Prop) (room room' : Scope)
    (first second : StmtCode) : Prop where
  code : CodeAlike numbers first.code second.code
  scope : Inside room room' first.scope second.scope
  next_eq : first.next = second.next

/-- Compiling the statement under the names of two rooms ends alike. -/
def StmtEndsAlike (numbers : UInt16 → UInt16 → Prop) (room room' : Scope)
    (setting setting' : Setting) (stmt : Stmt) : Prop :=
  ∀ (scope scope' : Scope) (next : Nat), Inside room room' scope scope' →
    EndsAlike (StmtsAlike numbers room room') (compileStmt setting stmt scope next)
      (compileStmt setting' stmt scope' next)

theorem compileStmts_alike {body : List Stmt}
    (h : ∀ stmt ∈ body, StmtEndsAlike numbers room room' setting setting' stmt)
    {taken taken' : List Fragment} (htaken : List.Forall₂ (CodeAlike numbers) taken taken')
    (hscope : Inside room room' scope scope') (next : Nat) :
    EndsAlike (StmtsAlike numbers room room') (compileStmts setting body scope next taken)
      (compileStmts setting' body scope' next taken') := by
  induction body generalizing scope scope' next taken taken' with
  | nil =>
    refine .ok ⟨?_, hscope, rfl⟩
    exact List.rel_flatten (List.rel_reverse htaken)
  | cons stmt rest ih =>
    rw [List.forall_mem_cons] at h
    rw [compileStmts, compileStmts]
    refine (h.1 scope scope' next hscope).bind ?_
    intro compiled compiled' hcompiled
    rw [← hcompiled.next_eq]
    exact ih h.2 (.cons hcompiled.code htaken) hcompiled.scope compiled.next

/-- Statements that may be missing, compiled alike. -/
structure OptionalsAlike (numbers : UInt16 → UInt16 → Prop) (room room' : Scope)
    (first second : Option Fragment × StmtCode) : Prop where
  choice : Option.Rel (CodeAlike numbers) first.1 second.1
  scope : Inside room room' first.2.scope second.2.scope
  next_eq : first.2.next = second.2.next

theorem compileOptional_alike {choice : Option Stmt}
    (h : ∀ stmt ∈ choice, StmtEndsAlike numbers room room' setting setting' stmt)
    (hscope : Inside room room' scope scope') (next : Nat) :
    EndsAlike (OptionalsAlike numbers room room') (compileOptional setting choice scope next)
      (compileOptional setting' choice scope' next) := by
  cases choice with
  | none => exact .ok ⟨.none, hscope, rfl⟩
  | some stmt =>
    rw [compileOptional, compileOptional]
    refine (h stmt rfl scope scope' next hscope).bind ?_
    intro compiled compiled' hcompiled
    exact .ok ⟨.some hcompiled.code, hcompiled.scope, hcompiled.next_eq⟩

theorem stmtEndsAlike (hrooms : RoomsAlike numbers room room')
    (hsetting : SettingsAlike numbers setting setting') (stmt : Stmt) :
    StmtEndsAlike numbers room room' setting setting' stmt := by
  induction stmt using Stmt.induction with
  | block line body ih =>
    intro scope scope' next hscope
    rw [compileStmt, compileStmt]
    refine (compileStmts_alike ih .nil (hscope.push .block) next).bind ?_
    intro compiled compiled' hcompiled
    exact .ok ⟨hcompiled.code, hscope, hcompiled.next_eq⟩
  | var line name init =>
    intro scope scope' next hscope
    rw [compileStmt, compileStmt, hsetting.function_eq]
    refine (EndsAlike.refl (R := Eq) (fun _ => rfl) (newSlot setting'.function next)).bind ?_
    rintro slot _ rfl
    refine (compileInit_alike hrooms hsetting hscope line init (next + 1)).bind ?_
    rintro ⟨code, next⟩ ⟨code', _⟩ ⟨hcode, rfl⟩
    exact .ok ⟨List.rel_append hcode (CodeAlike.single (by simp)),
      hscope.declareLocal name slot, rfl⟩
  | const line name value =>
    intro scope scope' next hscope
    rw [compileStmt, compileStmt]
    exact .ok ⟨.nil, hscope.declareConst _, rfl⟩
  | assign line name value =>
    intro scope scope' next hscope
    rw [compileStmt, compileStmt, hsetting.site_eq]
    refine (storeName_alike hscope hrooms _ name).bind ?_
    intro store store' hstore
    refine (compileValue_alike hrooms hsetting hscope line value next).bind ?_
    rintro ⟨code, next⟩ ⟨code', _⟩ ⟨hcode, rfl⟩
    exact .ok ⟨List.rel_append hcode (.cons hstore .nil), hscope, rfl⟩
  | eval line expr =>
    intro scope scope' next hscope
    rw [compileStmt, compileStmt]
    refine (exprEndsAlike hrooms hsetting expr scope scope' line next hscope).bind ?_
    intro compiled compiled' hcompiled
    have hcode : CodeAlike numbers compiled.code compiled'.code := List.rel_reverse hcompiled.back
    refine .ok ⟨?_, hscope, hcompiled.next_eq⟩
    dsimp only
    rw [hcompiled.value_eq]
    split
    · exact List.rel_append hcode (CodeAlike.single (by simp))
    · exact hcode
  | ifElse line cond yes no ihYes ihNo =>
    intro scope scope' next hscope
    rw [compileStmt, compileStmt]
    refine (compileValue_alike hrooms hsetting hscope line cond next).bind ?_
    rintro ⟨test, next⟩ ⟨test', _⟩ ⟨htest, rfl⟩
    refine (ihYes _ _ next (hscope.push .block)).bind ?_
    intro first first' hfirst
    rw [← hfirst.next_eq]
    refine (compileOptional_alike ihNo (hscope.push .block) first.next).bind ?_
    intro last last' hlast
    have hcode := (alikeLikeness numbers).choice htest hfirst.code hlast.choice
    exact .ok ⟨hcode, hscope, hlast.next_eq⟩
  | whileLoop line cond body ih =>
    intro scope scope' next hscope
    rw [compileStmt, compileStmt]
    refine (compileValue_alike hrooms hsetting hscope line cond next).bind ?_
    rintro ⟨test, next⟩ ⟨test', _⟩ ⟨htest, rfl⟩
    refine (ih _ _ next (hscope.push .loop)).bind ?_
    intro inside inside' hinside
    have hcode := (alikeLikeness numbers).testLoop htest hinside.code
    exact .ok ⟨hcode, hscope, hinside.next_eq⟩
  | forLoop line init cond step body ihInit ihStep ihBody =>
    intro scope scope' next hscope
    rw [compileStmt, compileStmt]
    refine (compileOptional_alike ihInit (hscope.push .block) next).bind ?_
    rintro ⟨initCode, head⟩ ⟨initCode', head'⟩ hhead
    dsimp only
    rw [← hhead.next_eq]
    refine (compileCond_alike hrooms hsetting hhead.scope _ cond head.next).bind ?_
    rintro ⟨test, next⟩ ⟨test', _⟩ ⟨htest, rfl⟩
    refine (ihBody _ _ next (hhead.scope.push .loop)).bind ?_
    intro inside inside' hinside
    rw [← hinside.next_eq]
    refine (compileOptional_alike ihStep hhead.scope inside.next).bind ?_
    rintro ⟨stepCode, last⟩ ⟨stepCode', last'⟩ hlast
    have hloop := (alikeLikeness numbers).stepLoop htest hinside.code (forall₂_getD hlast.choice)
    exact .ok ⟨List.rel_append (forall₂_getD hhead.choice) hloop, hscope, hlast.next_eq⟩
  | breakLoop line | continueLoop line =>
    intro scope scope' next hscope
    rw [compileStmt, compileStmt, hscope.inLoop_eq hrooms, hsetting.site_eq]
    split
    · exact .ok ⟨.single (by simp), hscope, rfl⟩
    · exact .error _
  | leave line =>
    intro scope scope' next hscope
    rw [compileStmt, compileStmt, hsetting.inlined_eq]
    refine .ok ⟨.single ?_, hscope, rfl⟩
    split <;> simp

end

/-! ## Functions -/

section

variable {room room' : Scope}

theorem expandCall_alike (hrooms : RoomsAlike numbers room room') (function : String) (depth : Nat)
    (calls : List String) (routine routine' : Routine) (h : Twins numbers routine routine')
    (next : Nat) :
    EndsAlike (PieceAlike numbers) (expandCall function room depth calls routine next)
      (expandCall function room' depth calls routine' next) := by
  induction depth generalizing calls routine routine' next with
  | zero =>
    rw [expandCall, expandCall, h.name_eq]
    exact .error _
  | succ depth ih =>
    rw [expandCall, expandCall, h.name_eq, h.body_eq]
    split
    · exact .error _
    · have hsetting : SettingsAlike numbers
          ⟨function, true, expandCall function room depth (routine'.name :: calls)⟩
          ⟨function, true, expandCall function room' depth (routine'.name :: calls)⟩ :=
        ⟨rfl, rfl, ih (routine'.name :: calls)⟩
      refine (stmtEndsAlike hrooms hsetting routine'.body _ _ next
        (.rooms room room' .function)).bind ?_
      intro body body' hbody
      rw [← hbody.code.length_eq]
      exact .ok ⟨(alikeLikeness numbers).settle hbody.code _, hbody.next_eq⟩

/-- Listings that differ in nothing but numbers. -/
structure ListingsAlike (numbers : UInt16 → UInt16 → Prop) (first second : Listing) : Prop where
  instrs : CodeAlike numbers first.instrs second.instrs
  locals_eq : first.locals = second.locals

theorem Instr.Alike.link? {first second : Instr Target} (h : Instr.Alike numbers first second)
    (index : Nat) : Option.Rel (Instr.Alike numbers) (first.link? index) (second.link? index) := by
  cases h with
  | start h => exact .some (.start h)
  | same _ h =>
    cases hlinked : first.link? index with
    | none => exact .none
    | some finished =>
      rw [Instr.eq_of_link? ⟨0, 0, 0⟩ hlinked]
      exact .some ((Instr.Alike.same first h).mapTarget _)

theorem link?_alike {first second : Fragment} (h : CodeAlike numbers first second) :
    Option.Rel (CodeAlike numbers) first.link? second.link? := by
  refine rel_mapM ?_ (forall₂_zipIdx h 0)
  rintro ⟨instr, index⟩ ⟨instr', _⟩ ⟨hinstr, rfl⟩
  exact hinstr.link? index

theorem compileListing_alike (hrooms : RoomsAlike numbers room room') {routine routine' : Routine}
    (hname : routine.name = routine'.name) (hbody : routine.body = routine'.body) :
    EndsAlike (ListingsAlike numbers) (compileListing room routine)
      (compileListing room' routine') := by
  have hsetting : SettingsAlike numbers (.ofRoutine room routine) (.ofRoutine room' routine') := by
    refine ⟨hname, rfl, ?_⟩
    intro callee callee' hcallee next
    rw [Setting.ofRoutine, Setting.ofRoutine, hname, hrooms.length_eq]
    exact expandCall_alike hrooms _ _ [] callee callee' hcallee next
  rw [compileListing, compileListing, hbody, hname]
  refine (stmtEndsAlike hrooms hsetting routine'.body _ _ 0 (.rooms room room' .function)).bind ?_
  intro body body' hcode
  have hlinked : Option.Rel (CodeAlike numbers) (Fragment.link? (body.code ++ [.stop]))
      (Fragment.link? (body'.code ++ [.stop])) :=
    link?_alike (List.rel_append hcode.code (CodeAlike.single (by simp)))
  generalize Fragment.link? (body.code ++ [.stop]) = first at hlinked
  generalize Fragment.link? (body'.code ++ [.stop]) = second at hlinked
  cases hlinked with
  | none => exact .error _
  | some hinstrs => exact .ok ⟨hinstrs, hcode.next_eq⟩

theorem byteStarts_eq_of_alike {first second : List (Instr Nat)}
    (h : CodeAlike numbers first second) : byteStarts first = byteStarts second := by
  have hsizes : first.map Instr.size = second.map Instr.size := by
    refine map_eq_map_of_forall₂ h fun instr instr' hinstr => ?_
    cases hinstr <;> rfl
  have hfold : ∀ instrs : List (Instr Nat), byteStarts instrs =
      let sums := (instrs.map Instr.size).foldl
        (fun (acc : Array Nat × Nat) size => (acc.1.push acc.2, acc.2 + size)) (#[], 0)
      sums.1.push sums.2 := by
    intro instrs
    rw [List.foldl_map]
    rfl
  rw [hfold, hfold, hsizes]

/-- Numbers take the same room in code, so that code which differs in nothing else can be written or
not in the same way. -/
theorem encode_alike {first second : List (Instr Nat)} (h : CodeAlike numbers first second)
    (function : String) :
    EndsAlike (fun _ _ => True) (encode function first) (encode function second) := by
  rw [encode, encode, byteStarts_eq_of_alike h]
  have hparts : EndsAlike (List.Forall₂ fun _ _ => True)
      (first.zipIdx.mapM fun entry => do
        let operands ← operandBytes function (byteStarts second) entry.2 entry.1
        .ok (entry.1.opcode :: operands))
      (second.zipIdx.mapM fun entry => do
        let operands ← operandBytes function (byteStarts second) entry.2 entry.1
        .ok (entry.1.opcode :: operands)) := by
    refine EndsAlike.mapM ?_ (forall₂_zipIdx h 0)
    rintro ⟨instr, index⟩ ⟨instr', _⟩ ⟨hinstr, rfl⟩
    cases hinstr with
    | same => exact .refl (fun _ => trivial) _
    | start => exact .ok trivial
  refine hparts.bind fun _ _ _ => .ok trivial

end

end RoomForge.Code
