import RoomForge.Proofs.Recognition
import RoomForge.Proofs.Spelling

set_option autoImplicit false

/-! # Starts of phrases

Which tokens may stand at the start of a phrase, so that others can be written behind them and make
the phrase whole (specification, grammar of section 4.1). Expressions need no levels for this: two
of them may be joined by any operator and one of them may have any operator before it, only the tree
is another. `Binary.join` and `Binary.signed` say so.
-/

namespace RoomForge.Script.Grammar

/-- The tokens start a phrase, and what is missing of it can be written. -/
def Begins {α : Type} (Phrase : List Lexeme → α → Prop) (front : List Lexeme) : Prop :=
  ∃ more tree, (∀ lexeme ∈ more, lexeme.token.Writable) ∧ Phrase (front ++ more) tree

/-- A phrase and the sign that closes it. -/
def Closed {α : Type} (closing : Punct) (Phrase : List Lexeme → α → Prop) (lexemes : List Lexeme)
    (tree : α) : Prop :=
  ∃ inner line, lexemes = inner ++ [sign closing line] ∧ Phrase inner tree

/-! ## What can be written -/

@[simp] theorem writable_punct (punct : Punct) : (Token.punct punct).Writable := trivial

@[simp] theorem writable_keyword (keyword : Keyword) : (Token.keyword keyword).Writable := trivial

@[simp] theorem writable_zero : (Token.number 0).Writable :=
  Nat.two_pow_pos 31

@[simp] theorem writable_x : (Token.ident "x").Writable :=
  ⟨'x', [], rfl, .inl rfl, by simp, by intro keyword; cases keyword <;> decide⟩

/-! ## Parts of phrases -/

section

variable {α β : Type} {Phrase : List Lexeme → α → Prop} {Outer : List Lexeme → β → Prop}
  {front : List Lexeme}

theorem Begins.of_phrase {tree : α} (h : Phrase front tree) : Begins Phrase front :=
  ⟨[], tree, by simp, by simpa using h⟩

/-- A phrase that lacks tokens at its end. -/
theorem Begins.of_append {row : List Lexeme} {tree : α} (h : Phrase row tree)
    (more : List Lexeme) (hrow : row = front ++ more)
    (hmore : ∀ lexeme ∈ more, lexeme.token.Writable) : Begins Phrase front :=
  ⟨more, tree, hmore, hrow ▸ h⟩

/-- What starts a phrase starts a larger one, in which the phrase stands between `before` and
`behind`. -/
theorem Begins.within (h : Begins Phrase front) (before behind : List Lexeme)
    (hbehind : ∀ lexeme ∈ behind, lexeme.token.Writable)
    (houter : ∀ {lexemes : List Lexeme} {tree : α}, Phrase lexemes tree →
      ∃ outer, Outer (before ++ (lexemes ++ behind)) outer) : Begins Outer (before ++ front) := by
  obtain ⟨more, tree, hmore, hphrase⟩ := h
  obtain ⟨outer, hwhole⟩ := houter hphrase
  refine ⟨more ++ behind, outer, List.forall_mem_append.mpr ⟨hmore, hbehind⟩, ?_⟩
  simpa using hwhole

end

/-! ## Expressions -/

theorem Operator.level_pos {level : Nat} {punct : Punct} {op : BinOp}
    (h : Operator level punct op) : 1 ≤ level := by
  cases h <;> decide

theorem Operator.level_lt {level : Nat} {punct : Punct} {op : BinOp}
    (h : Operator level punct op) : level < operandLevel := by
  cases h <;> decide

/-- Behind an expression may stand any operator that binds as tightly, with one more operand. -/
theorem Binary.extend {level found : Nat} {left operand : List Lexeme} {leftExpr expr : Expr}
    {punct : Punct} {op : BinOp} (hop : Operator found punct op) (line : Nat)
    (hoperand : Unary operand expr) (hle : level ≤ found) :
    Binary level left leftExpr → ∃ whole, Binary level (left ++ sign punct line :: operand) whole
  | .operand _ => absurd hle (Nat.not_le.mpr hop.level_lt)
  | .tighter h => by
    rcases Nat.lt_or_eq_of_le hle with hlt | rfl
    · obtain ⟨whole, hwhole⟩ := h.extend hop line hoperand hlt
      exact ⟨whole, hwhole.tighter⟩
    · exact ⟨_, .apply line hop h.tighter ((Binary.operand hoperand).loosen hop.level_lt)⟩
  | .apply place hinner hleft hright => by
    rcases Nat.lt_or_eq_of_le hle with hlt | rfl
    · -- The operand goes to the right operand, which the operator binds tighter than.
      obtain ⟨whole, hwhole⟩ := hright.extend hop line hoperand hlt
      exact ⟨_, by simpa using Binary.apply place hinner hleft hwhole⟩
    · exact ⟨_, .apply line hop (.apply place hinner hleft hright)
        ((Binary.operand hoperand).loosen hop.level_lt)⟩

/-- Any operator may stand between two expressions. -/
theorem Binary.join {level found : Nat} {left right : List Lexeme} {leftExpr rightExpr : Expr}
    {punct : Punct} {op : BinOp} (hop : Operator found punct op) (line : Nat)
    (hleft : Expression left leftExpr) :
    Binary level right rightExpr → ∃ whole, Expression (left ++ sign punct line :: right) whole
  | .apply place hinner hfirst hsecond => by
    obtain ⟨_, hfront⟩ := hleft.join hop line hfirst
    obtain ⟨whole, hwhole⟩ := hfront.join hinner place hsecond
    exact ⟨whole, by simpa using hwhole⟩
  | .tighter h => hleft.join hop line h
  | .operand h => hleft.extend hop line h hop.level_pos

/-- A minus sign before a number makes a literal, and before anything else a negation. -/
theorem Unary.negated {lexemes : List Lexeme} {expr : Expr} (h : Unary lexemes expr) (line : Nat) :
    ∃ whole, Unary (sign .minus line :: lexemes) whole := by
  by_cases hnumber : ∀ value, lexemes.head?.map Lexeme.token ≠ some (.number value)
  · exact ⟨_, .neg line h hnumber⟩
  · simp only [not_forall, not_not] at hnumber
    obtain ⟨value, hvalue⟩ := hnumber
    cases h with
    | primary h =>
      cases h with
      | int value place => exact ⟨_, .negative value line place⟩
      | _ => exact absurd hvalue (by simp)
    | _ => exact absurd hvalue (by simp)

/-- A unary operator may stand before any expression. -/
theorem Binary.signed {level : Nat} {lexemes : List Lexeme} {expr : Expr} {punct : Punct}
    {op : UnOp} (hop : UnOp.ofToken? (.punct punct) = some op) (line : Nat) :
    Binary level lexemes expr → ∃ whole, Binary level (sign punct line :: lexemes) whole
  | .apply place hinner hleft hright => by
    obtain ⟨_, hfront⟩ := hleft.signed hop line
    exact ⟨_, .apply place hinner hfront hright⟩
  | .tighter h => by
    obtain ⟨whole, hwhole⟩ := h.signed hop line
    exact ⟨whole, hwhole.tighter⟩
  | .operand h => by
    rcases sign_of_unOp hop with ⟨hsign, -⟩ | ⟨hsign, -⟩
    · obtain rfl := Token.punct.inj hsign
      obtain ⟨whole, hwhole⟩ := h.negated line
      exact ⟨whole, .operand hwhole⟩
    · obtain rfl := Token.punct.inj hsign
      exact ⟨_, .operand (.not line h)⟩

end RoomForge.Script.Grammar
