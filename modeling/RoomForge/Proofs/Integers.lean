import RoomForge.Proofs.Grammar

set_option autoImplicit false

/-! # The integers of trees

Integers of a tree are never computed: each is the value of a number of the text, or the negative of
one (specification, section 4.1). Values of numbers are natural, so that nothing but a natural
number is ever negated. `Function.counted` says this of functions; `Proofs.Progress` draws the
conclusion.
-/

namespace RoomForge.Script

/-! ## The integers of trees -/

mutual

/-- The integers that an expression holds. -/
def Expr.integers : Expr → List Int
  | .int value => [value]
  | .str _ | .ident _ => []
  | .call _ args => Expr.integersOf args
  | .unary _ operand => operand.integers
  | .binary _ left right => left.integers ++ right.integers

/-- The integers that a row of expressions holds. -/
def Expr.integersOf : List Expr → List Int
  | [] => []
  | expr :: rest => expr.integers ++ Expr.integersOf rest

end

mutual

/-- The integers that a statement holds. -/
def Stmt.integers : Stmt → List Int
  | .block _ body => Stmt.integersOf body
  | .var _ _ init => Expr.integersOf init.toList
  | .const _ _ value => [value]
  | .assign _ _ value => value.integers
  | .eval _ expr => expr.integers
  | .ifElse _ cond yes no => cond.integers ++ yes.integers ++ Stmt.integers? no
  | .whileLoop _ cond body => cond.integers ++ body.integers
  | .forLoop _ init cond step body =>
    Stmt.integers? init ++ Expr.integersOf cond.toList ++ Stmt.integers? step ++ body.integers
  | .breakLoop _ | .continueLoop _ | .leave _ => []

/-- The integers that a row of statements holds. -/
def Stmt.integersOf : List Stmt → List Int
  | [] => []
  | stmt :: rest => stmt.integers ++ Stmt.integersOf rest

/-- The integers of a statement that may be missing. -/
def Stmt.integers? : Option Stmt → List Int
  | none => []
  | some stmt => stmt.integers

end

namespace Grammar

/-- Each integer is the value of a number among the tokens, or the negative of one. -/
def Counted (lexemes : List Lexeme) (integers : List Int) : Prop :=
  ∀ integer ∈ integers, ∃ value line : Nat, ⟨.number value, line⟩ ∈ lexemes ∧
    (integer = (value : Int) ∨ integer = -(value : Int))

section

variable {lexemes more : List Lexeme} {first second : List Int}

theorem counted_nil : Counted lexemes [] :=
  List.forall_mem_nil _

/-- More tokens hold as many numbers. -/
theorem Counted.mono (h : Counted lexemes first)
    (hsub : ∀ lexeme ∈ lexemes, lexeme ∈ more := by intro _ hmem; simp [hmem]) :
    Counted more first := by
  intro integer hinteger
  obtain ⟨value, line, hmem, hvalue⟩ := h integer hinteger
  exact ⟨value, line, hsub _ hmem, hvalue⟩

theorem Counted.append (hfirst : Counted lexemes first) (hsecond : Counted lexemes second) :
    Counted lexemes (first ++ second) :=
  List.forall_mem_append.mpr ⟨hfirst, hsecond⟩

theorem counted_singleton (value line : Nat) {integer : Int}
    (hmem : ⟨.number value, line⟩ ∈ lexemes)
    (hvalue : integer = (value : Int) ∨ integer = -(value : Int)) : Counted lexemes [integer] :=
  List.forall_mem_singleton.mpr ⟨value, line, hmem, hvalue⟩

end

/-! ## Where integers come from -/

mutual

theorem Primary.counted {lexemes : List Lexeme} {expr : Expr} :
    Primary lexemes expr → Counted lexemes expr.integers
  | .int value line => counted_singleton value line List.mem_cons_self (.inl rfl)
  | .str .. | .ident .. | .callNone .. => counted_nil
  | .call _ _ _ _ hargs => hargs.counted.mono
  | .paren _ _ hinner => hinner.counted.mono

theorem Args.counted {lexemes : List Lexeme} {args : List Expr} :
    Args lexemes args → Counted lexemes (Expr.integersOf args)
  | .last harg => harg.counted.append counted_nil
  | .more _ harg hrest => harg.counted.mono.append hrest.counted.mono

theorem Unary.counted {lexemes : List Lexeme} {expr : Expr} :
    Unary lexemes expr → Counted lexemes expr.integers
  | .primary h => h.counted
  | .negative value _ line => counted_singleton value line (by simp) (.inr rfl)
  | .neg _ h _ | .not _ h => h.counted.mono

theorem Binary.counted {level : Nat} {lexemes : List Lexeme} {expr : Expr} :
    Binary level lexemes expr → Counted lexemes expr.integers
  | .operand h => h.counted
  | .tighter h => h.counted
  | .apply _ _ hleft hright => hleft.counted.mono.append hright.counted.mono

end

theorem ConstantTail.counted {lexemes : List Lexeme} {constant : Constant}
    (h : ConstantTail lexemes constant) : Counted lexemes [constant.value] := by
  cases h with
  | positive name value first assign number last =>
    exact counted_singleton value number (by simp) (.inl rfl)
  | negative name value first assign minus number last =>
    exact counted_singleton value number (by simp) (.inr rfl)

theorem Simple.counted {lexemes : List Lexeme} {stmt : Stmt} (h : Simple lexemes stmt) :
    Counted lexemes stmt.integers := by
  cases h with
  | var => exact counted_nil
  | varInit _ _ _ _ hinit => exact hinit.counted.mono.append counted_nil
  | assign _ _ hvalue => exact hvalue.counted.mono
  | eval h => exact h.counted

theorem Optional.counted {lexemes : List Lexeme} {stmt : Option Stmt}
    (h : Optional Simple lexemes stmt) : Counted lexemes (Stmt.integers? stmt) := by
  cases h with
  | none => exact counted_nil
  | some h => exact h.counted

theorem Optional.counted_expr {lexemes : List Lexeme} {expr : Option Expr}
    (h : Optional Expression lexemes expr) : Counted lexemes (Expr.integersOf expr.toList) := by
  cases h with
  | none => exact counted_nil
  | some h => exact h.counted.append counted_nil

theorem Head.counted {lexemes : List Lexeme} {head : ForHead} (h : Head lexemes head) :
    Counted lexemes (Stmt.integers? head.init ++ Expr.integersOf head.cond.toList ++
      Stmt.integers? head.step) := by
  obtain ⟨opening, first, second, closing, hinit, hcond, hstep⟩ := h
  exact (hinit.counted.mono.append hcond.counted_expr.mono).append hstep.counted.mono

mutual

theorem Statement.counted {lexemes : List Lexeme} {stmt : Stmt} :
    Statement lexemes stmt → Counted lexemes stmt.integers
  | .block _ _ hbody => hbody.counted.mono
  | .empty _ | .breakLoop .. | .continueLoop .. | .leave .. => counted_nil
  | .const _ h => h.counted.mono
  | .ifThen _ _ _ hcond hyes => (hcond.counted.mono.append hyes.counted.mono).append counted_nil
  | .ifElse _ _ _ _ hcond hyes _ hno =>
    (hcond.counted.mono.append hyes.counted.mono).append hno.counted.mono
  | .whileLoop _ _ _ hcond hbody => hcond.counted.mono.append hbody.counted.mono
  | .forLoop _ hhead hbody => hhead.counted.mono.append hbody.counted.mono
  | .simple _ h => h.counted.mono

theorem Body.counted {lexemes : List Lexeme} {body : List Stmt} :
    Body lexemes body → Counted lexemes (Stmt.integersOf body)
  | .nil => counted_nil
  | .cons hfirst hrest => hfirst.counted.mono.append hrest.counted.mono

end

theorem Function.counted {lexemes : List Lexeme} {routine : Routine}
    (h : Function lexemes routine) : Counted lexemes routine.body.integers := by
  cases h with
  | normal _ h | inlined _ _ h =>
    obtain ⟨_, _, _, _, _, _, hbody⟩ := h
    exact hbody.counted.mono

end Grammar

end RoomForge.Script
