import RoomForge.Proofs.Emission
import RoomForge.Proofs.Placement

set_option autoImplicit false

/-! # Texts and scripts that code mentions

Two kinds of operands of compiled code come straight from the trees: the texts that are pushed and
the numbers of the scripts that are started (specification, section 4.3). `StmtMentions` lists them
for a tree, in the order of its code: a text for each string literal and a script for each call of a
function that is not inlined, where a call of an inlined function mentions what the function's body
does. The code of a function mentions exactly that: `compileListing_mentions`.
-/

namespace RoomForge.Script

/-! ## The literals of trees -/

mutual

/-- The string literals of an expression. -/
def Expr.literals : Expr → List String
  | .int _ | .ident _ => []
  | .str text => [text]
  | .call _ args => Expr.literalsOf args
  | .unary _ operand => operand.literals
  | .binary _ left right => left.literals ++ right.literals

/-- The string literals of a row of expressions. -/
def Expr.literalsOf : List Expr → List String
  | [] => []
  | expr :: rest => expr.literals ++ Expr.literalsOf rest

end

mutual

/-- The string literals of a statement. -/
def Stmt.literals : Stmt → List String
  | .block _ body => Stmt.literalsOf body
  | .var _ _ init => Expr.literalsOf init.toList
  | .assign _ _ value => value.literals
  | .eval _ expr => expr.literals
  | .ifElse _ cond yes no => cond.literals ++ yes.literals ++ Stmt.literals? no
  | .whileLoop _ cond body => cond.literals ++ body.literals
  | .forLoop _ init cond step body =>
    Stmt.literals? init ++ Expr.literalsOf cond.toList ++ Stmt.literals? step ++ body.literals
  | .const .. | .breakLoop _ | .continueLoop _ | .leave _ => []

/-- The string literals of a row of statements. -/
def Stmt.literalsOf : List Stmt → List String
  | [] => []
  | stmt :: rest => stmt.literals ++ Stmt.literalsOf rest

/-- The string literals of a statement that may be missing. -/
def Stmt.literals? : Option Stmt → List String
  | none => []
  | some stmt => stmt.literals

end

@[simp] theorem Stmt.literalsOf_toList (stmt : Option Stmt) :
    Stmt.literalsOf stmt.toList = Stmt.literals? stmt := by
  cases stmt <;> simp [Stmt.literalsOf, Stmt.literals?]

end RoomForge.Script

namespace RoomForge.Code

open RoomForge.Script

/-! ## The mentions of trees -/

/-- Something that a place of a tree puts into code. -/
inductive Mention where
  /-- A string literal. -/
  | text (text : String)
  /-- A call of `routine`, which has the number `number`, by the name `name`. -/
  | start (name : String) (routine : Routine) (number : UInt16)

/-- An operand of code that is a text or the number of a script. -/
inductive Mark where
  | text (text : String)
  | script (number : UInt16)
  deriving DecidableEq, Repr, Inhabited

/-- What a mention leaves in code. -/
def Mention.mark : Mention → Mark
  | .text literal => .text literal
  | .start _ _ number => .script number

/-- The text or the script of an instruction. -/
def Instr.mark? {τ : Type} : Instr τ → Option Mark
  | .pushString text => some (.text text)
  | .startScript number => some (.script number)
  | _ => none

mutual

/-- What an expression mentions under the names of `scope`, in a room with the names `room`. -/
inductive ExprMentions (room : Scope) : Scope → Expr → List Mention → Prop where
  | int (scope : Scope) (value : Int) : ExprMentions room scope (.int value) []
  | str (scope : Scope) (text : String) : ExprMentions room scope (.str text) [.text text]
  | ident (scope : Scope) (name : String) : ExprMentions room scope (.ident name) []
  | engine {scope : Scope} {name : String} {args : List Expr} {mentions : List Mention}
      {builtin : Builtin} (hname : scope.resolve? name = some (.builtin builtin))
      (hargs : RowMentions room scope args mentions) :
      ExprMentions room scope (.call name args) mentions
  | start {scope : Scope} {name : String} {routine : Routine} {number : UInt16}
      (hname : scope.resolve? name = some (.routine routine))
      (hinlined : routine.isInlined = false) (hnumber : routine.number = some number) :
      ExprMentions room scope (.call name []) [.start name routine number]
  /-- The body of an inlined function sees the names of the room alone. -/
  | expand {scope last : Scope} {name : String} {routine : Routine} {mentions : List Mention}
      (hname : scope.resolve? name = some (.routine routine))
      (hinlined : routine.isInlined = true)
      (hbody : StmtMentions room (room.push .function) routine.body mentions last) :
      ExprMentions room scope (.call name []) mentions
  | unary (op : UnOp) {scope : Scope} {expr : Expr} {mentions : List Mention}
      (h : ExprMentions room scope expr mentions) :
      ExprMentions room scope (.unary op expr) mentions
  | binary (op : BinOp) {scope : Scope} {left right : Expr} {first second : List Mention}
      (hleft : ExprMentions room scope left first)
      (hright : ExprMentions room scope right second) :
      ExprMentions room scope (.binary op left right) (first ++ second)

/-- What a row of expressions mentions. -/
inductive RowMentions (room : Scope) : Scope → List Expr → List Mention → Prop where
  | nil (scope : Scope) : RowMentions room scope [] []
  | cons {scope : Scope} {expr : Expr} {rest : List Expr} {first second : List Mention}
      (hfirst : ExprMentions room scope expr first)
      (hrest : RowMentions room scope rest second) :
      RowMentions room scope (expr :: rest) (first ++ second)

/-- What a statement mentions, and the names behind it. -/
inductive StmtMentions (room : Scope) : Scope → Stmt → List Mention → Scope → Prop where
  | block (line : Nat) {scope last : Scope} {body : List Stmt} {mentions : List Mention}
      (h : BodyMentions room (scope.push .block) body mentions last) :
      StmtMentions room scope (.block line body) mentions scope
  | var (line : Nat) (name : String) (slot : UInt8) {scope : Scope} {init : Option Expr}
      {mentions : List Mention} (h : RowMentions room scope init.toList mentions) :
      StmtMentions room scope (.var line name init) mentions (scope.declareLocal name slot)
  | const (line : Nat) (name : String) (value : Int) (scope : Scope) :
      StmtMentions room scope (.const line name value) [] (scope.declareConst ⟨name, value⟩)
  | assign (line : Nat) (name : String) {scope : Scope} {value : Expr} {mentions : List Mention}
      (h : ExprMentions room scope value mentions) :
      StmtMentions room scope (.assign line name value) mentions scope
  | eval (line : Nat) {scope : Scope} {expr : Expr} {mentions : List Mention}
      (h : ExprMentions room scope expr mentions) :
      StmtMentions room scope (.eval line expr) mentions scope
  | ifElse (line : Nat) {scope yesLast noLast : Scope} {cond : Expr} {yes : Stmt}
      {no : Option Stmt} {first second third : List Mention}
      (hcond : ExprMentions room scope cond first)
      (hyes : StmtMentions room (scope.push .block) yes second yesLast)
      (hno : BodyMentions room (scope.push .block) no.toList third noLast) :
      StmtMentions room scope (.ifElse line cond yes no) (first ++ second ++ third) scope
  | whileLoop (line : Nat) {scope last : Scope} {cond : Expr} {body : Stmt}
      {first second : List Mention} (hcond : ExprMentions room scope cond first)
      (hbody : StmtMentions room (scope.push .loop) body second last) :
      StmtMentions room scope (.whileLoop line cond body) (first ++ second) scope
  /-- The step is compiled behind the body. -/
  | forLoop (line : Nat) {scope head bodyLast stepLast : Scope} {init step : Option Stmt}
      {cond : Option Expr} {body : Stmt} {first second third fourth : List Mention}
      (hinit : BodyMentions room (scope.push .block) init.toList first head)
      (hcond : RowMentions room head cond.toList second)
      (hbody : StmtMentions room (head.push .loop) body third bodyLast)
      (hstep : BodyMentions room head step.toList fourth stepLast) :
      StmtMentions room scope (.forLoop line init cond step body)
        (first ++ (second ++ third ++ fourth)) scope
  | breakLoop (line : Nat) (scope : Scope) : StmtMentions room scope (.breakLoop line) [] scope
  | continueLoop (line : Nat) (scope : Scope) :
      StmtMentions room scope (.continueLoop line) [] scope
  | leave (line : Nat) (scope : Scope) : StmtMentions room scope (.leave line) [] scope

/-- What a row of statements mentions, and the names behind it. -/
inductive BodyMentions (room : Scope) : Scope → List Stmt → List Mention → Scope → Prop where
  | nil (scope : Scope) : BodyMentions room scope [] [] scope
  | cons {scope middle last : Scope} {stmt : Stmt} {rest : List Stmt} {first second : List Mention}
      (hfirst : StmtMentions room scope stmt first middle)
      (hrest : BodyMentions room middle rest second last) :
      BodyMentions room scope (stmt :: rest) (first ++ second) last

end

/-! ## Where mentions come from -/

@[simp] theorem Scope.routines_push (scope : Scope) (kind : FrameKind) :
    (scope.push kind).routines = scope.routines := by
  simp [Scope.push, Scope.routines]

@[simp] theorem Scope.routines_declareConst (scope : Scope) (constant : Constant) :
    (scope.declareConst constant).routines = scope.routines := by
  cases scope <;> simp [Scope.declareConst, Scope.routines]

@[simp] theorem Scope.routines_declareLocal (scope : Scope) (name : String) (slot : UInt8) :
    (scope.declareLocal name slot).routines = scope.routines := by
  cases scope <;> simp [Scope.declareLocal, Scope.routines]

theorem StmtMentions.routines_eq {room scope last : Scope} {stmt : Stmt} {mentions : List Mention}
    (h : StmtMentions room scope stmt mentions last) : last.routines = scope.routines := by
  cases h <;> simp

theorem BodyMentions.routines_eq {room scope last : Scope} {body : List Stmt}
    {mentions : List Mention} :
    BodyMentions room scope body mentions last → last.routines = scope.routines
  | .nil _ => rfl
  | .cons hfirst hrest => hrest.routines_eq.trans hfirst.routines_eq

/-- A text is one of the literals, or a literal of an inlined function of the room; a script is a
function of the room that is not inlined. -/
def Mention.From (room : Scope) (literals : List String) : Mention → Prop
  | .text literal => literal ∈ literals ∨
      ∃ callee ∈ room.routines, callee.isInlined = true ∧ literal ∈ callee.body.literals
  | .start name routine number => routine ∈ room.routines ∧ routine.name = name ∧
      routine.isInlined = false ∧ routine.number = some number

theorem Mention.From.mono {room : Scope} {literals more : List String} {mention : Mention}
    (h : mention.From room literals) (hsub : literals ⊆ more) : mention.From room more := by
  cases mention with
  | text literal => exact h.imp_left fun hmem => hsub hmem
  | start name routine number => exact h

/-- What an inlined function mentions is from the room, wherever it is expanded. -/
theorem Mention.From.expand {room : Scope} {callee : Routine} {mention : Mention}
    (hcallee : callee ∈ room.routines) (hinlined : callee.isInlined = true)
    (h : mention.From room callee.body.literals) (literals : List String) :
    mention.From room literals := by
  cases mention with
  | text literal => exact Or.inr (h.elim (fun htext => ⟨callee, hcallee, hinlined, htext⟩) id)
  | start name routine number => exact h

mutual

theorem ExprMentions.from_room {room scope : Scope} {expr : Expr} {mentions : List Mention}
    {mention : Mention} (hscope : scope.routines = room.routines) :
    ExprMentions room scope expr mentions → mention ∈ mentions →
      mention.From room expr.literals
  | .str _ text, hmem => by
    obtain rfl := List.mem_singleton.mp hmem
    exact Or.inl (List.mem_singleton.mpr rfl)
  | .engine _ hargs, hmem => hargs.from_room hscope hmem
  | .start hname hinlined hnumber, hmem => by
    obtain rfl := List.mem_singleton.mp hmem
    obtain ⟨hroutine, hroutineName⟩ := Scope.mem_routines_of_resolve? hname
    exact ⟨hscope ▸ hroutine, hroutineName, hinlined, hnumber⟩
  | .expand hname hinlined hbody, hmem => by
    obtain ⟨hroutine, -⟩ := Scope.mem_routines_of_resolve? hname
    exact (hbody.from_room (by simp) hmem).expand (hscope ▸ hroutine) hinlined _
  | .unary _ h, hmem => by simpa only [Expr.literals] using h.from_room hscope hmem
  | .binary _ hleft hright, hmem => by
    rcases List.mem_append.mp hmem with hmem | hmem
    · exact (hleft.from_room hscope hmem).mono (List.subset_append_left ..)
    · exact (hright.from_room hscope hmem).mono (List.subset_append_right ..)
  | .int .., hmem | .ident .., hmem => absurd hmem List.not_mem_nil

theorem RowMentions.from_room {room scope : Scope} {row : List Expr} {mentions : List Mention}
    {mention : Mention} (hscope : scope.routines = room.routines) :
    RowMentions room scope row mentions → mention ∈ mentions →
      mention.From room (Expr.literalsOf row)
  | .nil _, hmem => absurd hmem List.not_mem_nil
  | .cons hfirst hrest, hmem => by
    rcases List.mem_append.mp hmem with hmem | hmem
    · exact (hfirst.from_room hscope hmem).mono (List.subset_append_left ..)
    · exact (hrest.from_room hscope hmem).mono (List.subset_append_right ..)

theorem StmtMentions.from_room {room scope last : Scope} {stmt : Stmt} {mentions : List Mention}
    {mention : Mention} (hscope : scope.routines = room.routines) :
    StmtMentions room scope stmt mentions last → mention ∈ mentions →
      mention.From room stmt.literals
  | .block _ h, hmem => h.from_room (by simpa using hscope) hmem
  | .var _ _ _ h, hmem => h.from_room hscope hmem
  | .assign _ _ h, hmem => h.from_room hscope hmem
  | .eval _ h, hmem => h.from_room hscope hmem
  | .ifElse _ hcond hyes hno, hmem => by
    have hinner : (scope.push .block).routines = room.routines := by simpa using hscope
    rw [Stmt.literals, ← Stmt.literalsOf_toList]
    rcases List.mem_append.mp hmem with hmem | hmem
    · rcases List.mem_append.mp hmem with hmem | hmem
      · exact (hcond.from_room hscope hmem).mono (by simp)
      · exact (hyes.from_room hinner hmem).mono (by simp)
    · exact (hno.from_room hinner hmem).mono (by simp)
  | .whileLoop _ hcond hbody, hmem => by
    rcases List.mem_append.mp hmem with hmem | hmem
    · exact (hcond.from_room hscope hmem).mono (List.subset_append_left ..)
    · exact (hbody.from_room (by simpa using hscope) hmem).mono (List.subset_append_right ..)
  | .forLoop _ hinit hcond hbody hstep, hmem => by
    have hinner : (scope.push .block).routines = room.routines := by simpa using hscope
    have hhead := hinit.routines_eq.trans hinner
    rw [Stmt.literals, ← Stmt.literalsOf_toList, ← Stmt.literalsOf_toList]
    simp only [List.mem_append] at hmem
    rcases hmem with hmem | (hmem | hmem) | hmem
    · exact (hinit.from_room hinner hmem).mono (by simp)
    · exact (hcond.from_room hhead hmem).mono (by simp)
    · exact (hbody.from_room (by simpa using hhead) hmem).mono (List.subset_append_right ..)
    · exact (hstep.from_room hhead hmem).mono fun _ htext => by
        simp only [List.mem_append, htext, or_true, true_or]
  | .const .., hmem | .breakLoop .., hmem | .continueLoop .., hmem | .leave .., hmem =>
    absurd hmem List.not_mem_nil

theorem BodyMentions.from_room {room scope last : Scope} {body : List Stmt}
    {mentions : List Mention} {mention : Mention} (hscope : scope.routines = room.routines) :
    BodyMentions room scope body mentions last → mention ∈ mentions →
      mention.From room (Stmt.literalsOf body)
  | .nil _, hmem => absurd hmem List.not_mem_nil
  | .cons hfirst hrest, hmem => by
    rcases List.mem_append.mp hmem with hmem | hmem
    · exact (hfirst.from_room hscope hmem).mono (List.subset_append_left ..)
    · exact (hrest.from_room (hfirst.routines_eq.trans hscope) hmem).mono
        (List.subset_append_right ..)

end

/-! ## The marks of code -/

/-- The texts and scripts of code, in order. -/
def marks {τ : Type} (code : List (Instr τ)) : List Mark :=
  code.filterMap Instr.mark?

section

variable {τ σ : Type}

@[simp] theorem marks_nil : marks ([] : List (Instr τ)) = [] := rfl

@[simp] theorem marks_append (first second : List (Instr τ)) :
    marks (first ++ second) = marks first ++ marks second :=
  List.filterMap_append

@[simp] theorem marks_cons (instr : Instr τ) (rest : List (Instr τ)) :
    marks (instr :: rest) = instr.mark?.toList ++ marks rest := by
  cases h : instr.mark? <;> simp [marks, h]

@[simp] theorem Instr.mark?_mapTarget (f : τ → σ) (instr : Instr τ) :
    (instr.mapTarget f).mark? = instr.mark? := by
  cases instr <;> rfl

theorem marks_congr {first : List (Instr τ)} {second : List (Instr σ)}
    (h : first.map Instr.mark? = second.map Instr.mark?) : marks first = marks second := by
  have hmap : ∀ {ρ : Type} (code : List (Instr ρ)),
      marks code = (code.map Instr.mark?).filterMap id := by
    intro ρ code
    rw [List.filterMap_map]
    rfl
  rw [hmap, hmap, h]

@[simp] theorem marks_settle (fragment : Fragment) (places : Places) :
    marks (fragment.settle places) = marks fragment := by
  apply marks_congr
  apply List.ext_getElem?
  intro index
  simp [Fragment.settle, Function.comp_def]

theorem marks_of_link? {fragment : Fragment} {code : List (Instr Nat)}
    (h : fragment.link? = some code) : marks code = marks fragment := by
  apply marks_congr
  have hviews := map_eq_map_of_forall₂ (f := Instr.mark? ∘ Prod.fst) (g := Instr.mark?)
    (link?_eq_some_iff.mp h) ?_
  · rw [← hviews, ← List.map_map, List.zipIdx_map_fst]
  · intro numbered instr hinstr
    rw [Instr.eq_of_link? ⟨0, 0, 0⟩ hinstr, Instr.mark?_mapTarget]
    rfl

@[simp] theorem marks_loopTest (cond : Option Fragment) (behind : Nat) :
    marks (loopTest cond behind) = marks (cond.getD []) := by
  cases cond <;> simp [loopTest, Instr.mark?]

@[simp] theorem marks_choice (cond yes : Fragment) (no : Option Fragment) :
    marks (choice cond yes no) = marks cond ++ marks yes ++ marks (no.getD []) := by
  cases no <;> simp [choice, Instr.mark?]

@[simp] theorem marks_turnLoop (cond : Option Fragment) (body step : Fragment) (turn : Int) :
    marks (turnLoop cond body step turn) =
      marks (cond.getD []) ++ marks body ++ marks step := by
  simp [turnLoop, Instr.mark?]

end

/-! ## Compiled code -/

/-- Expanded code mentions what the function's body does. -/
def Setting.Mentioning (setting : Setting) (room : Scope) : Prop :=
  ∀ routine next code behind, setting.expand routine next = .ok (code, behind) →
    ∃ mentions last, StmtMentions room (room.push .function) routine.body mentions last ∧
      marks code = mentions.map Mention.mark

section

variable {setting : Setting} {room scope : Scope} {line next : Nat}

/-- What the code of an expression says about the expression's mentions. -/
def ExprMarked (setting : Setting) (room scope : Scope) (line : Nat) (expr : Expr) : Prop :=
  ∀ next compiled, compileExpr setting scope line expr next = .ok compiled →
    ∃ mentions, ExprMentions room scope expr mentions ∧
      marks compiled.code = mentions.map Mention.mark

theorem ExprMarked.value {expr : Expr} (h : ExprMarked setting room scope line expr)
    {code : Fragment} {behind : Nat}
    (hvalue : compileValue setting scope line expr next = .ok (code, behind)) :
    ∃ mentions, ExprMentions room scope expr mentions ∧
      marks code = mentions.map Mention.mark := by
  obtain ⟨compiled, hcompiled, -, rfl, -⟩ := compileValue_eq_ok_iff.mp hvalue
  exact h next compiled hcompiled

theorem compileArgs_marked {args : List Expr}
    (h : ∀ arg ∈ args, ExprMarked setting room scope line arg) {back : Fragment} {behind : Nat}
    (hargs : compileArgs setting scope line args next = .ok (back, behind)) :
    ∃ mentions, RowMentions room scope args mentions ∧
      marks back.reverse = mentions.map Mention.mark := by
  induction args generalizing next back with
  | nil =>
    rw [compileArgs] at hargs
    obtain ⟨rfl, rfl⟩ := Prod.mk.inj (Except.ok.inj hargs)
    exact ⟨[], .nil scope, rfl⟩
  | cons arg rest ih =>
    obtain ⟨code, middle, restBack, harg, hrest, hback⟩ := compileArgs_cons_ok hargs
    obtain ⟨first, hfirst, hfirstMarks⟩ := (h arg List.mem_cons_self).value harg
    obtain ⟨second, hsecond, hsecondMarks⟩ :=
      ih (fun other hother => h other (List.mem_cons_of_mem arg hother)) hrest
    refine ⟨first ++ second, .cons hfirst hsecond, ?_⟩
    rw [hback, marks_append, hfirstMarks, hsecondMarks, List.map_append]

theorem mark?_of_pushNumber {site : Site} {value : Int} {instr : Instr Target}
    (h : pushNumber site value = .ok instr) : instr.mark? = none := by
  obtain ⟨rfl, -⟩ := pushNumber_ok h
  rfl

theorem mark?_of_pushName {site : Site} {name : String} {instr : Instr Target}
    (h : pushName site scope name = .ok instr) : instr.mark? = none := by
  rcases pushName_ok h with ⟨value, -, hpush⟩ | ⟨slot, -, rfl⟩ | ⟨id, -, rfl⟩
  · exact mark?_of_pushNumber hpush
  · rfl
  · rfl

theorem mark?_of_storeName {site : Site} {name : String} {instr : Instr Target}
    (h : storeName site scope name = .ok instr) : instr.mark? = none := by
  rcases storeName_ok h with ⟨slot, -, rfl⟩ | ⟨id, -, rfl⟩
  · rfl
  · rfl

theorem exprMarked (hsetting : setting.Mentioning room) (scope : Scope) (line : Nat) (expr : Expr) :
    ExprMarked setting room scope line expr := by
  induction expr using Expr.induction with
  | int value =>
    intro next compiled h
    obtain ⟨push, hpush, rfl⟩ := compileExpr_int_ok h
    exact ⟨[], .int scope value, by simp [ExprCode.code, mark?_of_pushNumber hpush]⟩
  | str text =>
    intro next compiled h
    obtain rfl := compileExpr_str_ok h
    exact ⟨[.text text], .str scope text, rfl⟩
  | ident name =>
    intro next compiled h
    obtain ⟨push, hpush, rfl⟩ := compileExpr_ident_ok h
    exact ⟨[], .ident scope name, by simp [ExprCode.code, mark?_of_pushName hpush]⟩
  | call name args ih =>
    intro next compiled h
    rcases compileExpr_call_ok h with ⟨builtin, back, hname, -, hargs, hcode, -⟩ |
      ⟨routine, hname, hcall⟩
    · obtain ⟨mentions, hmentions, hmarks⟩ := compileArgs_marked ih hargs
      exact ⟨mentions, .engine hname hmentions, by simp [hcode, hmarks, Instr.mark?]⟩
    · obtain ⟨hargc, -, ⟨hinlined, hexpand⟩ | ⟨hinlined, number, hnumber, hcode, -⟩⟩ :=
        callRoutine_ok hcall
      · obtain rfl := List.eq_nil_of_length_eq_zero hargc
        obtain ⟨mentions, last, hbody, hmarks⟩ := hsetting routine next _ _ hexpand
        exact ⟨mentions, .expand hname hinlined hbody, hmarks⟩
      · obtain rfl := List.eq_nil_of_length_eq_zero hargc
        exact ⟨_, .start hname hinlined hnumber, by simp [hcode, Instr.mark?, Mention.mark]⟩
  | unary op expr ih =>
    intro next compiled h
    obtain ⟨code, hvalue, hcode, -⟩ := compileExpr_unary_ok h
    obtain ⟨mentions, hmentions, hmarks⟩ := ih.value hvalue
    exact ⟨mentions, .unary op hmentions, by simp [hcode, hmarks, Instr.mark?]⟩
  | binary op left right ihLeft ihRight =>
    intro next compiled h
    obtain ⟨leftCode, middle, rightCode, hleft, hright, hcode, -⟩ := compileExpr_binary_ok h
    obtain ⟨first, hfirst, hfirstMarks⟩ := ihLeft.value hleft
    obtain ⟨second, hsecond, hsecondMarks⟩ := ihRight.value hright
    refine ⟨first ++ second, .binary op hfirst hsecond, ?_⟩
    simp [hcode, hfirstMarks, hsecondMarks, Instr.mark?]

theorem compileInit_marked (hsetting : setting.Mentioning room) {init : Option Expr}
    {code : Fragment} {behind : Nat}
    (h : compileInit setting scope line init next = .ok (code, behind)) :
    ∃ mentions, RowMentions room scope init.toList mentions ∧
      marks code = mentions.map Mention.mark := by
  cases init with
  | none =>
    obtain ⟨rfl, rfl⟩ := Prod.mk.inj (Except.ok.inj h)
    exact ⟨[], .nil scope, rfl⟩
  | some init =>
    obtain ⟨mentions, hmentions, hmarks⟩ := (exprMarked hsetting scope line init).value h
    exact ⟨mentions ++ [], .cons hmentions (.nil scope), by simp [hmarks]⟩

theorem compileCond_marked (hsetting : setting.Mentioning room) {cond : Option Expr}
    {code : Option Fragment} {behind : Nat}
    (h : compileCond setting scope line cond next = .ok (code, behind)) :
    ∃ mentions, RowMentions room scope cond.toList mentions ∧
      marks (code.getD []) = mentions.map Mention.mark := by
  rcases compileCond_ok h with ⟨rfl, rfl, rfl⟩ | ⟨expr, inner, rfl, rfl, hvalue⟩
  · exact ⟨[], .nil scope, rfl⟩
  · obtain ⟨mentions, hmentions, hmarks⟩ := (exprMarked hsetting scope line expr).value hvalue
    exact ⟨mentions ++ [], .cons hmentions (.nil scope), by simp [hmarks]⟩

/-- What the code of a statement says about the statement's mentions. -/
def StmtMarked (setting : Setting) (room : Scope) (stmt : Stmt) : Prop :=
  ∀ scope next compiled, compileStmt setting stmt scope next = .ok compiled →
    ∃ mentions, StmtMentions room scope stmt mentions compiled.scope ∧
      marks compiled.code = mentions.map Mention.mark

theorem compileStmts_marked {body : List Stmt} (h : ∀ stmt ∈ body, StmtMarked setting room stmt)
    {compiled : StmtCode} (hbody : compileStmts setting body scope next [] = .ok compiled) :
    ∃ mentions, BodyMentions room scope body mentions compiled.scope ∧
      marks compiled.code = mentions.map Mention.mark := by
  induction body generalizing scope next compiled with
  | nil =>
    rw [compileStmts] at hbody
    obtain rfl := Except.ok.inj hbody
    exact ⟨[], .nil scope, rfl⟩
  | cons stmt rest ih =>
    obtain ⟨first, last, hfirst, hlast, rfl⟩ := compileStmts_cons_ok hbody
    obtain ⟨before, hbefore, hbeforeMarks⟩ := h stmt List.mem_cons_self scope next first hfirst
    obtain ⟨after, hafter, hafterMarks⟩ :=
      ih (fun other hother => h other (List.mem_cons_of_mem stmt hother)) hlast
    exact ⟨before ++ after, .cons hbefore hafter, by simp [hbeforeMarks, hafterMarks]⟩

theorem compileOptional_marked {choice : Option Stmt}
    (h : ∀ stmt ∈ choice, StmtMarked setting room stmt) {code : Option Fragment}
    {compiled : StmtCode}
    (hchoice : compileOptional setting choice scope next = .ok (code, compiled)) :
    ∃ mentions, BodyMentions room scope choice.toList mentions compiled.scope ∧
      marks (code.getD []) = mentions.map Mention.mark := by
  rw [compileOptional_code hchoice]
  cases choice with
  | none =>
    obtain ⟨-, rfl⟩ := compileOptional_none_ok hchoice
    exact ⟨[], .nil scope, rfl⟩
  | some stmt =>
    obtain ⟨mentions, hmentions, hmarks⟩ :=
      h stmt rfl scope next compiled (compileOptional_some_ok hchoice).1
    exact ⟨mentions ++ [], .cons hmentions (.nil _), by simp [hmarks]⟩

theorem stmtMarked (hsetting : setting.Mentioning room) (stmt : Stmt) :
    StmtMarked setting room stmt := by
  induction stmt using Stmt.induction with
  | block line body ih =>
    intro scope next compiled h
    obtain ⟨inner, hinner, rfl⟩ := compileStmt_block_ok h
    obtain ⟨mentions, hmentions, hmarks⟩ := compileStmts_marked ih hinner
    exact ⟨mentions, .block line hmentions, hmarks⟩
  | var line name init =>
    intro scope next compiled h
    obtain ⟨slot, code, behind, -, hinit, rfl⟩ := compileStmt_var_ok h
    obtain ⟨mentions, hmentions, hmarks⟩ := compileInit_marked hsetting hinit
    exact ⟨mentions, .var line name slot hmentions, by simp [hmarks, Instr.mark?]⟩
  | const line name value =>
    intro scope next compiled h
    obtain rfl := compileStmt_const_ok h
    exact ⟨[], .const line name value scope, rfl⟩
  | assign line name value =>
    intro scope next compiled h
    obtain ⟨store, code, behind, hstore, hvalue, rfl⟩ := compileStmt_assign_ok h
    obtain ⟨mentions, hmentions, hmarks⟩ := (exprMarked hsetting scope line value).value hvalue
    exact ⟨mentions, .assign line name hmentions, by simp [hmarks, mark?_of_storeName hstore]⟩
  | eval line expr =>
    intro scope next compiled h
    obtain ⟨inner, hinner, rfl⟩ := compileStmt_eval_ok h
    obtain ⟨mentions, hmentions, hmarks⟩ := exprMarked hsetting scope line expr next inner hinner
    refine ⟨mentions, .eval line hmentions, ?_⟩
    cases inner.value <;> simp [hmarks, Instr.mark?]
  | ifElse line cond yes no ihYes ihNo =>
    intro scope next compiled h
    obtain ⟨condCode, middle, yesCode, noCode, last, hcond, hyes, hno, rfl⟩ :=
      compileStmt_ifElse_ok h
    obtain ⟨first, hfirst, hfirstMarks⟩ := (exprMarked hsetting scope line cond).value hcond
    obtain ⟨second, hsecond, hsecondMarks⟩ := ihYes _ _ _ hyes
    obtain ⟨third, hthird, hthirdMarks⟩ := compileOptional_marked ihNo hno
    refine ⟨_, .ifElse line hfirst hsecond hthird, ?_⟩
    simp [hfirstMarks, hsecondMarks, hthirdMarks]
  | whileLoop line cond body ih =>
    intro scope next compiled h
    obtain ⟨condCode, middle, bodyCode, hcond, hbody, rfl⟩ := compileStmt_whileLoop_ok h
    obtain ⟨first, hfirst, hfirstMarks⟩ := (exprMarked hsetting scope line cond).value hcond
    obtain ⟨second, hsecond, hsecondMarks⟩ := ih _ _ _ hbody
    refine ⟨_, .whileLoop line hfirst hsecond, ?_⟩
    simp [testLoop_eq_turnLoop, hfirstMarks, hsecondMarks]
  | forLoop line init cond step body ihInit ihStep ihBody =>
    intro scope next compiled h
    obtain ⟨initCode, head, condLine, condCode, middle, bodyCode, stepCode, last, hinit, hcond,
      hbody, hstep, rfl⟩ := compileStmt_forLoop_ok h
    obtain ⟨first, hfirst, hfirstMarks⟩ := compileOptional_marked ihInit hinit
    obtain ⟨second, hsecond, hsecondMarks⟩ := compileCond_marked hsetting hcond
    obtain ⟨third, hthird, hthirdMarks⟩ := ihBody _ _ _ hbody
    obtain ⟨fourth, hfourth, hfourthMarks⟩ := compileOptional_marked ihStep hstep
    refine ⟨_, .forLoop line hfirst hsecond hthird hfourth, ?_⟩
    simp [stepLoop_eq_turnLoop, hfirstMarks, hsecondMarks, hthirdMarks, hfourthMarks]
  | breakLoop line =>
    intro scope next compiled h
    obtain ⟨-, rfl⟩ := compileStmt_breakLoop_ok h
    exact ⟨[], .breakLoop line scope, rfl⟩
  | continueLoop line =>
    intro scope next compiled h
    obtain ⟨-, rfl⟩ := compileStmt_continueLoop_ok h
    exact ⟨[], .continueLoop line scope, rfl⟩
  | leave line =>
    intro scope next compiled h
    obtain rfl := compileStmt_leave_ok h
    refine ⟨[], .leave line scope, ?_⟩
    cases setting.inlined <;> rfl

end

theorem expandCall_mentioning (function : String) (room : Scope) (depth : Nat) (calls : List String)
    (inlined : Bool) :
    Setting.Mentioning ⟨function, inlined, expandCall function room depth calls⟩ room := by
  induction depth generalizing calls inlined with
  | zero =>
    intro routine next code behind h
    obtain ⟨_, _, hdepth, _⟩ := expandCall_ok h
    exact absurd hdepth (by simp)
  | succ depth ih =>
    intro routine next code behind h
    obtain ⟨rest, inner, hdepth, -, hinner, rfl, -⟩ := expandCall_ok h
    obtain rfl := Nat.succ.inj hdepth
    obtain ⟨mentions, hmentions, hmarks⟩ := stmtMarked (ih _ true) routine.body _ _ _ hinner
    exact ⟨mentions, inner.scope, hmentions, by simp [hmarks]⟩

/-- The code of a function mentions what its body does, in the same order. -/
theorem compileListing_mentions {room : Scope} {routine : Routine} {listing : Listing}
    (h : compileListing room routine = .ok listing) :
    ∃ mentions last, StmtMentions room (room.push .function) routine.body mentions last ∧
      marks listing.instrs = mentions.map Mention.mark := by
  obtain ⟨body, hbody, hlink, -⟩ := compileListing_ok h
  have hsetting : (Setting.ofRoutine room routine).Mentioning room :=
    expandCall_mentioning routine.name room (room.routines.length + 1) [] false
  obtain ⟨mentions, hmentions, hmarks⟩ := stmtMarked hsetting routine.body _ _ _ hbody
  refine ⟨mentions, body.scope, hmentions, ?_⟩
  rw [marks_of_link? hlink]
  simp [hmarks, Instr.mark?]

end RoomForge.Code
