import RoomForge.Proofs.Recognition

set_option autoImplicit false

/-! # What is in the grammar is read

Each reader of the parser, given a phrase of its kind and enough fuel for the phrase's tokens, reads
the phrase to its end and answers with its tree (specification, grammar of section 4.1). What
follows the phrase must not let the reader go on: an operator that would take the phrase as its left
operand, a parenthesis that would make a name a call, or an `else` that an open `if` would take.

`Whole.read` is the result for whole scripts. It is one half of `Proofs.Parsing`; the other is
`Proofs.Recognition`.
-/

namespace RoomForge.Script

@[simp] theorem peek_cons (item : Item) (items : List Item) : peek (item :: items) = item := rfl

@[simp] theorem expect_cons (token : Token) (line : Nat) (wanted : Wanted) (items : List Item) :
    expect token wanted (.ok ⟨token, line⟩ :: items) = .ok ((), items) :=
  if_pos rfl

@[simp] theorem expectSign_cons (punct : Punct) (line : Nat) (items : List Item) :
    expectSign punct (.ok ⟨.punct punct, line⟩ :: items) = .ok ((), items) :=
  if_pos rfl

@[simp] theorem readName_cons (name : String) (line : Nat) (wanted : Wanted) (items : List Item) :
    readName wanted (.ok ⟨.ident name, line⟩ :: items) = .ok (name, items) :=
  rfl

theorem nextIs_cons {property : Token → Prop} {lexeme : Lexeme} {items : List Item}
    (h : property lexeme.token) : NextIs property (.ok lexeme :: items) :=
  ⟨lexeme, rfl, h⟩

theorem NextIs.imp {property other : Token → Prop} {items : List Item} (h : NextIs property items)
    (himp : ∀ token, property token → other token) : NextIs other items := by
  obtain ⟨next, hnext, hproperty⟩ := h
  exact ⟨next, hnext, himp _ hproperty⟩

namespace Grammar

/-! ## Operators and operands -/

/-- A token that ends an expression whose operators have at least the level. -/
def Follows (level : Nat) (token : Token) : Prop :=
  token ≠ .punct .lparen ∧ Below level token

theorem Follows.mono {inner outer : Nat} {token : Token} (h : Follows inner token)
    (hle : inner ≤ outer) : Follows outer token :=
  ⟨h.1, fun op hop => Nat.lt_of_lt_of_le (h.2 op hop) hle⟩

/-- An operator ends what binds tighter. -/
theorem Operator.follows {level : Nat} {punct : Punct} {op : BinOp} (h : Operator level punct op) :
    Follows (level + 1) (.punct punct) := by
  obtain ⟨hop, rfl⟩ := operator_iff.mp h
  constructor
  · rintro ⟨⟩
    exact absurd hop (by simp [BinOp.ofSign?])
  · intro other hother
    obtain rfl := Option.some.inj (hop.symm.trans hother)
    exact Nat.lt_succ_self _

/-- Signs other than operators and the opening parenthesis end every expression. -/
theorem follows_of_ofSign?_eq_none {level : Nat} {punct : Punct} (h : BinOp.ofSign? punct = none)
    (hne : punct ≠ .lparen) : Follows level (.punct punct) :=
  ⟨fun hparen => hne (Token.punct.inj hparen), below_of_ofToken?_eq_none h⟩

/-- The operators behind an expression end where a looser operator or none follows. -/
theorem readOperators_of_below {fuel level : Nat} {left : Expr} {rest : List Item}
    (h : NextIs (Below level) rest) :
    readOperators (fuel + 1) level left rest = .ok (left, rest) := by
  obtain ⟨next, hnext, hbelow⟩ := h
  rw [readOperators, bind_of_eq_ok hnext]
  split
  · rfl
  · next op hop => exact if_pos (hbelow op hop)

theorem readOperators_of_operator {fuel level found : Nat} {punct : Punct} {op : BinOp} {line : Nat}
    {left : Expr} {items : List Item} (hop : Operator found punct op) (hle : level ≤ found) :
    readOperators (fuel + 1) level left (.ok (sign punct line) :: items) =
      (do
        let (right, items) ← readBinary fuel (found + 1) items
        readOperators fuel level (.binary op left right) items) := by
  obtain ⟨hsign, rfl⟩ := operator_iff.mp hop
  rw [readOperators, bind_of_eq_ok (peek_cons _ _)]
  simp only [BinOp.ofToken?, hsign, if_neg (Nat.not_lt.mpr hle), List.tail_cons]

theorem Primary.unOp_eq_none {lexemes : List Lexeme} {expr : Expr} (h : Primary lexemes expr) :
    StartsWith (UnOp.ofToken? · = none) lexemes := by
  cases h with
  | _ => exact ⟨_, _, rfl, rfl⟩

theorem Args.starts {lexemes : List Lexeme} {args : List Expr} (h : Args lexemes args) :
    StartsWith StartsExpr lexemes := by
  cases h with
  | last h => exact h.starts
  | more _ h _ => exact h.starts.append _

theorem StartsWith.length_pos {property : Token → Prop} {lexemes : List Lexeme}
    (h : StartsWith property lexemes) : 0 < lexemes.length := by
  obtain ⟨first, rest, rfl, -⟩ := h
  exact Nat.succ_pos _

/-! ## One form of expression at a time -/

section

variable {fuel line opening closing : Nat} {name : String} {inner : List Lexeme} {rest : List Item}

theorem readPrimary_ident (hnext : NextIs (· ≠ .punct .lparen) rest) :
    readPrimary (fuel + 1) (.ok ⟨.ident name, line⟩ :: rest) = .ok (.ident name, rest) := by
  obtain ⟨next, hnext, hne⟩ := hnext
  rw [readPrimary, bind_of_eq_ok (peek_cons _ _)]
  dsimp only [List.tail_cons]
  rw [bind_of_eq_ok hnext, if_neg hne]

theorem readPrimary_call {args : List Expr} (hstarts : StartsWith StartsExpr inner)
    (hread : readArgs fuel [] (itemsOf inner ++ .ok (sign .rparen closing) :: rest) =
      .ok (args, rest)) :
    readPrimary (fuel + 1)
        (itemsOf (⟨.ident name, line⟩ :: sign .lparen opening ::
          (inner ++ [sign .rparen closing])) ++ rest) = .ok (.call name args, rest) := by
  obtain ⟨first, others, rfl, hfirst⟩ := hstarts
  have hne : first.token ≠ .punct .rparen := by
    intro h
    rw [h] at hfirst
    exact hfirst
  rw [readPrimary, itemsOf_cons, List.cons_append, bind_of_eq_ok (peek_cons _ _)]
  simp only [List.tail_cons, itemsOf_cons, List.cons_append]
  rw [bind_of_eq_ok (peek_cons _ _), if_pos rfl, bind_of_eq_ok (peek_cons _ _), if_neg hne]
  rw [itemsOf_append, List.append_assoc]
  exact bind_of_eq_ok hread

theorem readPrimary_paren {expr : Expr}
    (hread : readBinary fuel 1 (itemsOf inner ++ .ok (sign .rparen closing) :: rest) =
      .ok (expr, .ok (sign .rparen closing) :: rest)) :
    readPrimary (fuel + 1)
        (itemsOf (sign .lparen opening :: (inner ++ [sign .rparen closing])) ++ rest) =
      .ok (expr, rest) := by
  rw [readPrimary, itemsOf_cons, List.cons_append, bind_of_eq_ok (peek_cons _ _)]
  simp only [List.tail_cons, itemsOf_append, List.append_assoc]
  exact bind_of_eq_ok hread

theorem readUnary_primary {expr : Expr} (hstarts : StartsWith (UnOp.ofToken? · = none) inner)
    (hread : readPrimary fuel (itemsOf inner ++ rest) = .ok (expr, rest)) :
    readUnary (fuel + 1) (itemsOf inner ++ rest) = .ok (expr, rest) := by
  obtain ⟨first, others, rfl, hfirst⟩ := hstarts
  rw [readUnary, itemsOf_cons, List.cons_append, bind_of_eq_ok (peek_cons _ _)]
  simp only [hfirst]
  exact hread

/-- An operator before its operand; a minus sign before a number is none. -/
theorem readUnary_operator {punct : Punct} {op : UnOp} {expr : Expr}
    (hop : UnOp.ofToken? (.punct punct) = some op) (hstarts : StartsWith StartsExpr inner)
    (hnumber : op = .neg → ∀ value, inner.head?.map Lexeme.token ≠ some (.number value))
    (hread : readUnary fuel (itemsOf inner ++ rest) = .ok (expr, rest)) :
    readUnary (fuel + 1) (itemsOf (sign punct line :: inner) ++ rest) =
      .ok (.unary op expr, rest) := by
  obtain ⟨first, others, rfl, -⟩ := hstarts
  rw [readUnary, itemsOf_cons, List.cons_append, bind_of_eq_ok (peek_cons _ _)]
  simp only [hop, List.tail_cons]
  rw [itemsOf_cons, List.cons_append, bind_of_eq_ok (peek_cons _ _)]
  split
  · next value hvalue => exact absurd (congrArg some hvalue) (hnumber rfl value)
  · exact bind_of_eq_ok hread

theorem readArgs_last {arg : Expr} {taken : List Expr}
    (hread : readBinary fuel 1 (itemsOf inner ++ .ok (sign .rparen closing) :: rest) =
      .ok (arg, .ok (sign .rparen closing) :: rest)) :
    readArgs (fuel + 1) taken (itemsOf inner ++ .ok (sign .rparen closing) :: rest) =
      .ok (taken.reverse ++ [arg], rest) := by
  rw [readArgs, bind_of_eq_ok hread, ← List.reverse_cons]
  rfl

theorem readArgs_more {comma : Nat} {arg : Expr} {taken args : List Expr} {others : List Item}
    (hread : readBinary fuel 1 (itemsOf inner ++ .ok (sign .comma comma) :: others) =
      .ok (arg, .ok (sign .comma comma) :: others))
    (hothers : readArgs fuel (arg :: taken) others = .ok ((arg :: taken).reverse ++ args, rest)) :
    readArgs (fuel + 1) taken (itemsOf inner ++ .ok (sign .comma comma) :: others) =
      .ok (taken.reverse ++ arg :: args, rest) := by
  rw [List.reverse_cons, List.append_assoc] at hothers
  rw [readArgs, bind_of_eq_ok hread]
  exact hothers

end

/-! ## Expressions

Every token costs the reader at most four calls, and a reader of a tighter kind of expression one
call less than the next looser kind. -/

/-- With fuel for the tokens, the reader of binary expressions comes to stand before the operators
that follow. -/
def ReadsLeft (level : Nat) (lexemes : List Lexeme) (expr : Expr) : Prop :=
  ∀ (outer fuel : Nat) (rest : List Item), outer ≤ level → 4 * lexemes.length + 3 ≤ fuel →
    NextIs (Follows (level + 1)) rest →
    ∃ left, fuel ≤ left + 4 * lexemes.length ∧
      readBinary fuel outer (itemsOf lexemes ++ rest) = readOperators left outer expr rest

/-- A reader that stands before a token that ends the expression is done. -/
theorem ReadsLeft.read {level fuel : Nat} {lexemes : List Lexeme} {expr : Expr} {rest : List Item}
    (h : ReadsLeft level lexemes expr) (hfuel : 4 * lexemes.length + 3 ≤ fuel)
    (hnext : NextIs (Follows level) rest) :
    readBinary fuel level (itemsOf lexemes ++ rest) = .ok (expr, rest) := by
  obtain ⟨left, hleft, hread⟩ := h level fuel rest (Nat.le_refl level) hfuel
    (hnext.imp fun _ hfollows => hfollows.mono (Nat.le_succ level))
  obtain ⟨left, rfl⟩ : ∃ n, left = n + 1 := ⟨left - 1, by omega⟩
  rw [hread]
  exact readOperators_of_below (hnext.imp fun _ => And.right)

/-- A sign that ends every expression follows. -/
theorem nextIs_follows {level line : Nat} {punct : Punct} {items : List Item}
    (h : BinOp.ofSign? punct = none) (hne : punct ≠ .lparen) :
    NextIs (Follows level) (.ok (sign punct line) :: items) :=
  nextIs_cons (follows_of_ofSign?_eq_none h hne)

/-- An operator takes what stands before it as its left operand. -/
theorem ReadsLeft.apply {level line : Nat} {punct : Punct} {op : BinOp} {left right : List Lexeme}
    {leftExpr rightExpr : Expr} (hop : Operator level punct op)
    (hleft : ReadsLeft level left leftExpr) (hright : ReadsLeft (level + 1) right rightExpr) :
    ReadsLeft level (left ++ sign punct line :: right) (.binary op leftExpr rightExpr) := by
  intro outer fuel rest hle hfuel hnext
  simp only [List.length_append, List.length_cons] at hfuel ⊢
  obtain ⟨spare, hspare, hread⟩ := hleft outer fuel
    (.ok (sign punct line) :: (itemsOf right ++ rest)) hle (by omega) (nextIs_cons hop.follows)
  obtain ⟨spare, rfl⟩ : ∃ n, spare = n + 1 := ⟨spare - 1, by omega⟩
  refine ⟨spare, by omega, ?_⟩
  rw [itemsOf_append, itemsOf_cons, List.append_assoc, List.cons_append, hread,
    readOperators_of_operator hop hle]
  exact bind_of_eq_ok (hright.read (by omega) hnext)

mutual

theorem Primary.read {lexemes : List Lexeme} {expr : Expr} :
    Primary lexemes expr → ∀ (fuel : Nat) (rest : List Item), 4 * lexemes.length + 1 ≤ fuel →
      NextIs (· ≠ .punct .lparen) rest →
      readPrimary fuel (itemsOf lexemes ++ rest) = .ok (expr, rest)
  | .int .., _ + 1, _, _, _ | .str .., _ + 1, _, _, _ | .callNone .., _ + 1, _, _, _ => rfl
  | .ident .., _ + 1, _, _, hnext => readPrimary_ident hnext
  | .call _ _ _ _ hargs, fuel + 1, rest, hfuel, _ => by
    simp only [List.length_cons, List.length_append] at hfuel
    exact readPrimary_call hargs.starts (hargs.read fuel [] rest (by omega))
  | .paren _ _ hinner, fuel + 1, rest, hfuel, _ => by
    simp only [List.length_cons, List.length_append] at hfuel
    exact readPrimary_paren (hinner.readsLeft.read (by omega) (nextIs_follows rfl (by decide)))

theorem Args.read {lexemes : List Lexeme} {args : List Expr} :
    Args lexemes args → ∀ {closing : Nat} (fuel : Nat) (taken : List Expr) (rest : List Item),
      4 * lexemes.length + 4 ≤ fuel →
      readArgs fuel taken (itemsOf lexemes ++ .ok (sign .rparen closing) :: rest) =
        .ok (taken.reverse ++ args, rest)
  | .last harg, _, fuel + 1, _, _, hfuel =>
    readArgs_last (harg.readsLeft.read (by omega) (nextIs_follows rfl (by decide)))
  | .more _ harg hrest, _, fuel + 1, taken, rest, hfuel => by
    simp only [List.length_cons, List.length_append] at hfuel
    rw [itemsOf_append, itemsOf_cons, List.append_assoc, List.cons_append]
    exact readArgs_more (harg.readsLeft.read (by omega) (nextIs_follows rfl (by decide)))
      (hrest.read fuel (_ :: taken) rest (by omega))

theorem Unary.read {lexemes : List Lexeme} {expr : Expr} :
    Unary lexemes expr → ∀ (fuel : Nat) (rest : List Item), 4 * lexemes.length + 2 ≤ fuel →
      NextIs (· ≠ .punct .lparen) rest →
      readUnary fuel (itemsOf lexemes ++ rest) = .ok (expr, rest)
  | .primary h, fuel + 1, rest, hfuel, hnext =>
    readUnary_primary h.unOp_eq_none (h.read fuel rest (by omega) hnext)
  | .negative .., _ + 1, _, _, _ => rfl
  | .neg _ h hnumber, fuel + 1, rest, hfuel, hnext => by
    rw [List.length_cons] at hfuel
    exact readUnary_operator rfl h.starts (fun _ => hnumber) (h.read fuel rest (by omega) hnext)
  | .not _ h, fuel + 1, rest, hfuel, hnext => by
    rw [List.length_cons] at hfuel
    exact readUnary_operator rfl h.starts (fun hop => absurd hop (by simp))
      (h.read fuel rest (by omega) hnext)

theorem Binary.readsLeft {level : Nat} {lexemes : List Lexeme} {expr : Expr} :
    Binary level lexemes expr → ReadsLeft level lexemes expr
  | .operand h => by
    intro outer fuel rest hle hfuel hnext
    obtain ⟨fuel, rfl⟩ : ∃ n, fuel = n + 1 := ⟨fuel - 1, by omega⟩
    have hpos := h.starts.length_pos
    refine ⟨fuel, by omega, ?_⟩
    rw [readBinary]
    exact bind_of_eq_ok (h.read fuel rest (by omega) (hnext.imp fun _ => And.left))
  | .tighter h => fun outer fuel rest hle hfuel hnext =>
    h.readsLeft outer fuel rest (Nat.le_succ_of_le hle) hfuel
      (hnext.imp fun _ hfollows => hfollows.mono (Nat.le_succ _))
  | .apply _ hop hleft hright => hleft.readsLeft.apply hop hright.readsLeft

end

/-! ## Simple statements and heads -/

section

variable {fuel : Nat} {lexemes : List Lexeme} {rest : List Item}

theorem Binary.readExpr {expr : Expr} (h : Expression lexemes expr)
    (hfuel : 4 * lexemes.length + 3 ≤ fuel) (hnext : NextIs (Follows 1) rest) :
    readExpr fuel (itemsOf lexemes ++ rest) = .ok (expr, rest) :=
  h.readsLeft.read hfuel hnext

theorem ConstantTail.read {constant : Constant} (h : ConstantTail lexemes constant) :
    readConstant (itemsOf lexemes ++ rest) = .ok (constant, rest) := by
  cases h with
  | positive => rfl
  | negative => rfl

theorem readCondition_of_expression {opening closing : Nat} {cond : Expr}
    (h : Expression lexemes cond) (hfuel : 4 * lexemes.length + 3 ≤ fuel) :
    readCondition fuel (.ok (sign .lparen opening) ::
        (itemsOf lexemes ++ .ok (sign .rparen closing) :: rest)) = .ok (cond, rest) := by
  have hread : readExpr fuel (itemsOf lexemes ++ .ok (sign .rparen closing) :: rest) = _ :=
    h.readExpr hfuel (nextIs_follows rfl (by decide))
  simp only [readCondition, expectSign_cons, ok_bind, hread]

/-- A token that a statement without a keyword of its own can start with. -/
def StartsSimple (token : Token) : Prop :=
  token = .keyword .varWord ∨ StartsExpr token

theorem Simple.starts {stmt : Stmt} (h : Simple lexemes stmt) :
    StartsWith StartsSimple lexemes := by
  cases h with
  | var => exact ⟨_, _, rfl, .inl rfl⟩
  | varInit => exact ⟨_, _, rfl, .inl rfl⟩
  | assign _ htarget _ => exact (htarget.expression.starts.append _).imp fun _ => .inr
  | eval h => exact h.starts.imp fun _ => .inr

/-- A token that ends a statement without a keyword of its own. -/
def EndsSimple (token : Token) : Prop :=
  token = .punct .semicolon ∨ token = .punct .rparen

theorem EndsSimple.follows {token : Token} (h : EndsSimple token) : Follows 1 token := by
  rcases h with rfl | rfl
  · exact follows_of_ofSign?_eq_none rfl (by decide)
  · exact follows_of_ofSign?_eq_none rfl (by decide)

theorem EndsSimple.ne_assign {token : Token} (h : EndsSimple token) : token ≠ .punct .assign := by
  rcases h with rfl | rfl
  · decide
  · decide

theorem StartsExpr.ne_varWord {token : Token} (h : StartsExpr token) :
    token ≠ .keyword .varWord := by
  rintro rfl
  exact h

/-- What a statement starts with is read as an expression before an assignment is recognised. -/
theorem readSimple_of_expression {expr : Expr} (h : Expression lexemes expr)
    (hfuel : 4 * lexemes.length + 3 ≤ fuel) (hnext : NextIs (Follows 1) rest) :
    readSimple fuel (itemsOf lexemes ++ rest) = (do
      let next ← peek rest
      if next.token = .punct .assign then
        match expr with
        | .ident name =>
          let (value, items) ← readExpr fuel rest.tail
          .ok (.assign (lineOf lexemes) name value, items)
        | _ => .error ⟨next.line, .assignmentTarget⟩
      else .ok (.eval (lineOf lexemes) expr, rest)) := by
  have hread := h.readExpr hfuel hnext
  obtain ⟨first, others, rfl, hfirst⟩ := h.starts
  rw [readSimple]
  rw [itemsOf_cons, List.cons_append] at hread ⊢
  rw [bind_of_eq_ok (peek_cons _ _), if_neg hfirst.ne_varWord, bind_of_eq_ok hread]
  rfl

theorem Simple.read {stmt : Stmt} (h : Simple lexemes stmt) (hfuel : 4 * lexemes.length + 3 ≤ fuel)
    (hnext : NextIs EndsSimple rest) :
    readSimple fuel (itemsOf lexemes ++ rest) = .ok (stmt, rest) := by
  have hfollows := hnext.imp fun _ => EndsSimple.follows
  obtain ⟨next, hpeek, hends⟩ := hnext
  cases h with
  | var name line place =>
    simp only [readSimple, itemsOf_cons, itemsOf_nil, List.cons_append, List.nil_append, peek_cons,
      ok_bind, List.tail_cons, readName_cons, hpeek, if_neg hends.ne_assign, if_true]
  | varInit name line place assign hinit =>
    simp only [List.length_cons] at hfuel
    have hread : readExpr fuel _ = _ := hinit.readExpr (by omega) hfollows
    simp only [readSimple, itemsOf_cons, List.cons_append, peek_cons, ok_bind, List.tail_cons,
      readName_cons, if_true, hread]
  | assign line htarget hvalue =>
    simp only [List.length_append, List.length_cons] at hfuel
    rw [itemsOf_append, itemsOf_cons, List.append_assoc, List.cons_append,
      readSimple_of_expression htarget.expression (by omega) (nextIs_follows rfl (by decide)),
      bind_of_eq_ok (peek_cons _ _), if_pos rfl]
    exact bind_of_eq_ok (hvalue.readExpr (by omega) hfollows)
  | eval h =>
    rw [readSimple_of_expression h hfuel hfollows, bind_of_eq_ok hpeek, if_neg hends.ne_assign]

/-- A missing phrase is read as missing where its end follows. -/
theorem Optional.read {α : Type} {stop : Punct} {Phrase : List Lexeme → α → Prop}
    {read : List Item → Except SyntaxError (Parsed α)} {line : Nat} {tree : Option α}
    (h : Optional Phrase lexemes tree)
    (hread : ∀ {tree : α}, Phrase lexemes tree →
      read (itemsOf lexemes ++ .ok (sign stop line) :: rest) =
        .ok (tree, .ok (sign stop line) :: rest))
    (hstarts : ∀ {tree : α}, Phrase lexemes tree → StartsWith (· ≠ .punct stop) lexemes) :
    readUnless (.punct stop) read (itemsOf lexemes ++ .ok (sign stop line) :: rest) =
      .ok (tree, .ok (sign stop line) :: rest) := by
  cases h with
  | none => exact if_pos rfl
  | some h =>
    have hsome := hread h
    obtain ⟨first, others, rfl, hne⟩ := hstarts h
    rw [itemsOf_cons, List.cons_append] at hsome ⊢
    rw [readUnless, bind_of_eq_ok (peek_cons _ _), if_neg hne, bind_of_eq_ok hsome]

theorem StartsSimple.ne_endsSimple {token other : Token} (h : StartsSimple token)
    (hends : EndsSimple other) : token ≠ other := by
  rintro rfl
  rcases hends with rfl | rfl
  · exact h.elim (by simp) id
  · exact h.elim (by simp) id

theorem Optional.readSimple {stop : Punct} {line : Nat} {stmt : Option Stmt}
    (h : Optional Simple lexemes stmt) (hfuel : 4 * lexemes.length + 3 ≤ fuel)
    (hstop : EndsSimple (.punct stop)) :
    readUnless (.punct stop) (readSimple fuel) (itemsOf lexemes ++ .ok (sign stop line) :: rest) =
      .ok (stmt, .ok (sign stop line) :: rest) := by
  apply h.read
  · intro stmt h
    exact h.read hfuel (nextIs_cons hstop)
  · intro stmt h
    exact h.starts.imp fun _ hstarts => hstarts.ne_endsSimple hstop

theorem Head.read {head : ForHead} (h : Head lexemes head)
    (hfuel : 4 * lexemes.length + 3 ≤ fuel) :
    readForHead fuel (itemsOf lexemes ++ rest) = .ok (head, rest) := by
  cases h with
  | mk opening first second closing hinit hcond hstep =>
    simp only [List.length_append, List.length_cons] at hfuel
    simp only [readForHead, itemsOf_cons, itemsOf_append, itemsOf_nil, List.cons_append,
      List.append_assoc, List.nil_append, expectSign_cons, ok_bind]
    rw [bind_of_eq_ok (hinit.readSimple (by omega) (.inl rfl))]
    simp only [expectSign_cons, ok_bind]
    rw [bind_of_eq_ok (hcond.read (fun h => h.readExpr (by omega) (nextIs_follows rfl (by decide)))
      fun h => h.starts.imp fun _ hstarts => StartsSimple.ne_endsSimple (.inr hstarts) (.inl rfl))]
    simp only [expectSign_cons, ok_bind]
    rw [bind_of_eq_ok (hstep.readSimple (by omega) (.inr rfl))]
    simp only [expectSign_cons, ok_bind]

end

/-! ## One form of statement at a time -/

/-- A token that a statement can start with is neither of these. -/
def StartsStmt (token : Token) : Prop :=
  token ≠ .punct .rbrace ∧ token ≠ .eof ∧ token ≠ .keyword .elseWord

theorem StartsSimple.startsStmt {token : Token} (h : StartsSimple token) : StartsStmt token := by
  rcases h with rfl | h
  · exact ⟨by simp, by simp, by simp⟩
  · refine ⟨?_, ?_, ?_⟩ <;> rintro rfl <;> exact h

theorem Statement.starts {lexemes : List Lexeme} {stmt : Stmt} (h : Statement lexemes stmt) :
    StartsWith StartsStmt lexemes := by
  cases h with
  | simple _ h => exact (h.starts.append _).imp fun _ => StartsSimple.startsStmt
  | _ => exact ⟨_, _, rfl, by simp [StartsStmt]⟩

/-- No `else` follows a statement of a block. -/
theorem Body.nextIs_ne_else {lexemes : List Lexeme} {body : List Stmt} (h : Body lexemes body)
    {closing : Nat} {rest : List Item} :
    NextIs (· ≠ .keyword .elseWord) (itemsOf lexemes ++ .ok (sign .rbrace closing) :: rest) := by
  cases h with
  | nil => exact nextIs_cons (by simp)
  | cons hfirst _ =>
    obtain ⟨first, others, rfl, -, -, hne⟩ := hfirst.starts
    exact nextIs_cons hne

section

variable {fuel line opening closing : Nat} {lexemes test yes : List Lexeme} {rest : List Item}
  {cond : Expr} {stmt yesStmt : Stmt}

theorem readStmt_block {body : List Stmt}
    (hread : readStmts fuel [] (itemsOf lexemes ++ .ok (sign .rbrace closing) :: rest) =
      .ok (body, rest)) :
    readStmt (fuel + 1)
        (itemsOf (sign .lbrace line :: (lexemes ++ [sign .rbrace closing])) ++ rest) =
      .ok (.block line body, rest) := by
  simp only [readStmt, itemsOf_cons, itemsOf_append, itemsOf_nil, List.cons_append, List.nil_append,
    List.append_assoc, peek_cons, ok_bind, List.tail_cons, hread]

theorem readStmt_if (hcond : Expression test cond) (hfuel : 4 * test.length + 3 ≤ fuel)
    (hyes : readStmt fuel (itemsOf yes ++ rest) = .ok (yesStmt, rest))
    (hnext : NextIs (· ≠ .keyword .elseWord) rest) :
    readStmt (fuel + 1)
        (itemsOf (word .ifWord line :: sign .lparen opening ::
          (test ++ sign .rparen closing :: yes)) ++ rest) =
      .ok (.ifElse line cond yesStmt none, rest) := by
  obtain ⟨next, hpeek, hne⟩ := hnext
  simp only [readStmt, itemsOf_cons, itemsOf_append, List.cons_append, List.append_assoc, peek_cons,
    ok_bind, List.tail_cons, readCondition_of_expression hcond hfuel, hyes, hpeek, if_neg hne]

theorem readStmt_ifElse {middle : Nat} {no : List Lexeme} {noStmt : Stmt}
    (hcond : Expression test cond) (hfuel : 4 * test.length + 3 ≤ fuel)
    (hyes : readStmt fuel (itemsOf yes ++ .ok (word .elseWord middle) :: (itemsOf no ++ rest)) =
      .ok (yesStmt, .ok (word .elseWord middle) :: (itemsOf no ++ rest)))
    (hno : readStmt fuel (itemsOf no ++ rest) = .ok (noStmt, rest)) :
    readStmt (fuel + 1)
        (itemsOf (word .ifWord line :: sign .lparen opening ::
          (test ++ sign .rparen closing :: (yes ++ word .elseWord middle :: no))) ++ rest) =
      .ok (.ifElse line cond yesStmt (some noStmt), rest) := by
  simp only [readStmt, itemsOf_cons, itemsOf_append, List.cons_append, List.append_assoc, peek_cons,
    ok_bind, List.tail_cons, readCondition_of_expression hcond hfuel, hyes, if_true, hno]

theorem readStmt_while (hcond : Expression test cond) (hfuel : 4 * test.length + 3 ≤ fuel)
    (hbody : readStmt fuel (itemsOf lexemes ++ rest) = .ok (stmt, rest)) :
    readStmt (fuel + 1)
        (itemsOf (word .whileWord line :: sign .lparen opening ::
          (test ++ sign .rparen closing :: lexemes)) ++ rest) =
      .ok (.whileLoop line cond stmt, rest) := by
  simp only [readStmt, itemsOf_cons, itemsOf_append, List.cons_append, List.append_assoc, peek_cons,
    ok_bind, List.tail_cons, readCondition_of_expression hcond hfuel, hbody]

theorem readStmt_for {front : List Lexeme} {head : ForHead} (hhead : Head front head)
    (hfuel : 4 * front.length + 3 ≤ fuel)
    (hbody : readStmt fuel (itemsOf lexemes ++ rest) = .ok (stmt, rest)) :
    readStmt (fuel + 1) (itemsOf (word .forWord line :: (front ++ lexemes)) ++ rest) =
      .ok (.forLoop line head.init head.cond head.step stmt, rest) := by
  simp only [readStmt, itemsOf_cons, itemsOf_append, List.cons_append, List.append_assoc, peek_cons,
    ok_bind, List.tail_cons, hhead.read hfuel, hbody]

/-- A statement without a keyword of its own is none of the other forms. -/
theorem readStmt_of_startsSimple {first : Lexeme} {items : List Item}
    (h : StartsSimple first.token) :
    readStmt (fuel + 1) (.ok first :: items) =
      (do
        let (stmt, items) ← readSimple fuel (.ok first :: items)
        closeStmt stmt items) := by
  obtain ⟨token, line⟩ := first
  rcases h with rfl | h
  · rfl
  · cases token with
    | number | str | ident => rfl
    | keyword | eof => exact absurd h id
    | punct punct =>
      cases punct with
      | lparen | minus | bang => rfl
      | _ => exact absurd h id

theorem readStmt_simple (h : Simple lexemes stmt) (hfuel : 4 * lexemes.length + 3 ≤ fuel) :
    readStmt (fuel + 1) (itemsOf (lexemes ++ [sign .semicolon line]) ++ rest) =
      .ok (stmt, rest) := by
  have hread : readSimple fuel (itemsOf lexemes ++ .ok (sign .semicolon line) :: rest) = _ :=
    h.read hfuel (nextIs_cons (.inl rfl))
  obtain ⟨first, others, rfl, hstarts⟩ := h.starts
  rw [itemsOf_append, List.append_assoc]
  rw [itemsOf_cons, List.cons_append] at hread ⊢
  rw [readStmt_of_startsSimple hstarts]
  exact bind_of_eq_ok hread

theorem readStmts_cons {taken stmts : List Stmt} {behind : List Item}
    (hstarts : StartsWith StartsStmt lexemes)
    (hread : readStmt fuel (itemsOf lexemes ++ behind) = .ok (stmt, behind))
    (hothers : readStmts fuel (stmt :: taken) behind =
      .ok ((stmt :: taken).reverse ++ stmts, rest)) :
    readStmts (fuel + 1) taken (itemsOf lexemes ++ behind) =
      .ok (taken.reverse ++ stmt :: stmts, rest) := by
  obtain ⟨first, others, rfl, hbrace, heof, -⟩ := hstarts
  rw [itemsOf_cons, List.cons_append] at hread ⊢
  rw [List.reverse_cons, List.append_assoc] at hothers
  rw [readStmts, bind_of_eq_ok (peek_cons _ _)]
  split
  · next htoken => exact absurd htoken hbrace
  · next htoken => exact absurd htoken heof
  · rw [bind_of_eq_ok hread]
    exact hothers

end

/-! ## Statements -/

mutual

theorem Statement.read {lexemes : List Lexeme} {stmt : Stmt} :
    Statement lexemes stmt → ∀ (fuel : Nat) (rest : List Item), 4 * lexemes.length + 4 ≤ fuel →
      NextIs (fun token => stmt.EndsOpen → token ≠ .keyword .elseWord) rest →
      readStmt fuel (itemsOf lexemes ++ rest) = .ok (stmt, rest)
  | .block _ _ hbody, fuel + 1, rest, hfuel, _ => by
    simp only [List.length_cons, List.length_append] at hfuel
    exact readStmt_block (hbody.read fuel [] rest (by omega))
  | .empty _, _ + 1, _, _, _ => rfl
  | .const _ h, _ + 1, _, _, _ => by
    simp only [readStmt, itemsOf_cons, List.cons_append, peek_cons, ok_bind, List.tail_cons, h.read]
  | .ifThen _ _ _ hcond hyes, fuel + 1, rest, hfuel, hnext => by
    simp only [List.length_cons, List.length_append] at hfuel
    have hne := hnext.imp fun _ hne => hne trivial
    exact readStmt_if hcond (by omega) (hyes.read fuel rest (by omega) (hne.imp fun _ h _ => h)) hne
  | .ifElse _ _ _ _ hcond hyes hclosed hno, fuel + 1, rest, hfuel, hnext => by
    simp only [List.length_cons, List.length_append] at hfuel
    exact readStmt_ifElse hcond (by omega)
      (hyes.read fuel _ (by omega) (nextIs_cons fun hopen => absurd hopen hclosed))
      (hno.read fuel rest (by omega) hnext)
  | .whileLoop _ _ _ hcond hbody, fuel + 1, rest, hfuel, hnext => by
    simp only [List.length_cons, List.length_append] at hfuel
    exact readStmt_while hcond (by omega) (hbody.read fuel rest (by omega) hnext)
  | .forLoop _ hhead hbody, fuel + 1, rest, hfuel, hnext => by
    simp only [List.length_cons, List.length_append] at hfuel
    exact readStmt_for hhead (by omega) (hbody.read fuel rest (by omega) hnext)
  | .breakLoop .., _ + 1, _, _, _ | .continueLoop .., _ + 1, _, _, _ | .leave .., _ + 1, _, _, _ =>
    rfl
  | .simple _ h, fuel + 1, rest, hfuel, _ => by
    simp only [List.length_cons, List.length_append] at hfuel
    exact readStmt_simple h (by omega)

theorem Body.read {lexemes : List Lexeme} {body : List Stmt} :
    Body lexemes body → ∀ {closing : Nat} (fuel : Nat) (taken : List Stmt) (rest : List Item),
      4 * lexemes.length + 5 ≤ fuel →
      readStmts fuel taken (itemsOf lexemes ++ .ok (sign .rbrace closing) :: rest) =
        .ok (taken.reverse ++ body, rest)
  | .nil, _, _ + 1, _, _, _ => by
    rw [List.append_nil]
    rfl
  | .cons hfirst hrest, _, fuel + 1, taken, rest, hfuel => by
    have hpos := hfirst.starts.length_pos
    rw [List.length_append] at hfuel
    rw [itemsOf_append, List.append_assoc]
    exact readStmts_cons hfirst.starts
      (hfirst.read fuel _ (by omega) (hrest.nextIs_ne_else.imp fun _ hne _ => hne))
      (hrest.read fuel (_ :: taken) rest (by omega))

end

/-! ## Scripts -/

theorem Body.readBlock {lexemes : List Lexeme} {body : List Stmt} (h : Body lexemes body)
    {fuel first last : Nat} {rest : List Item} (hfuel : 4 * lexemes.length + 5 ≤ fuel) :
    readBlock fuel (.ok (sign .lbrace first) ::
      (itemsOf lexemes ++ .ok (sign .rbrace last) :: rest)) = .ok (.block first body, rest) := by
  have hread : readStmts fuel [] (itemsOf lexemes ++ .ok (sign .rbrace last) :: rest) = _ :=
    h.read fuel [] rest hfuel
  simp only [Script.readBlock, peek_cons, ok_bind, expectSign_cons, hread, List.reverse_nil,
    List.nil_append]

theorem Function.read {lexemes : List Lexeme} {routine : Routine} (h : Function lexemes routine)
    {fuel : Nat} {rest : List Item} (hfuel : 4 * lexemes.length ≤ fuel) :
    readRoutine fuel (itemsOf lexemes ++ rest) = .ok (routine, rest) := by
  cases h with
  | normal line h =>
    obtain ⟨name, place, opening, closing, first, last, hbody⟩ := h
    simp only [List.length_cons, List.length_append] at hfuel
    have hblock : readBlock fuel
        (.ok (sign .lbrace first) :: (_ ++ .ok (sign .rbrace last) :: rest)) = _ :=
      hbody.readBlock (by omega)
    simp [readRoutine, ok_bind, hblock]
  | inlined line second h =>
    obtain ⟨name, place, opening, closing, first, last, hbody⟩ := h
    simp only [List.length_cons, List.length_append] at hfuel
    have hblock : readBlock fuel
        (.ok (sign .lbrace first) :: (_ ++ .ok (sign .rbrace last) :: rest)) = _ :=
      hbody.readBlock (by omega)
    simp [readRoutine, ok_bind, hblock]

/-- A token that a function starts with. -/
def StartsFunction (token : Token) : Prop :=
  token = .keyword .functionWord ∨ token = .keyword .inlineWord

theorem Function.starts {lexemes : List Lexeme} {routine : Routine} (h : Function lexemes routine) :
    StartsWith StartsFunction lexemes := by
  cases h with
  | normal => exact ⟨_, _, rfl, .inl rfl⟩
  | inlined => exact ⟨_, _, rfl, .inr rfl⟩

theorem readScript_routine {lexemes : List Lexeme} {routine : Routine}
    (h : Function lexemes routine) {fuel : Nat} {constants : List Constant}
    {routines : List Routine} {rest : List Item} (hfuel : 4 * lexemes.length ≤ fuel) :
    readScript (fuel + 1) constants routines (itemsOf lexemes ++ rest) =
      readScript fuel constants (routine :: routines) rest := by
  have hread : readRoutine fuel (itemsOf lexemes ++ rest) = _ := h.read hfuel
  obtain ⟨⟨token, line⟩, others, rfl, hstarts⟩ := h.starts
  rw [itemsOf_cons, List.cons_append] at hread ⊢
  rw [readScript, bind_of_eq_ok (peek_cons _ _)]
  rcases hstarts with rfl | rfl
  · exact bind_of_eq_ok hread
  · exact bind_of_eq_ok hread

/-- A whole script is read, behind what was read before it. -/
theorem Whole.read {lexemes : List Lexeme} {script : Declarations} (h : Whole lexemes script)
    {fuel : Nat} {constants : List Constant} {routines : List Routine}
    (hfuel : 4 * lexemes.length + 1 ≤ fuel) :
    readScript fuel constants routines (itemsOf lexemes) =
      .ok ⟨constants.reverse ++ script.constants, routines.reverse ++ script.routines⟩ := by
  induction h generalizing fuel constants routines with
  | eof line =>
    obtain ⟨fuel, rfl⟩ : ∃ n, fuel = n + 1 := ⟨fuel - 1, by simp at hfuel; omega⟩
    simp [readScript, ok_bind]
  | @const line _ rest constant _ h _ ih =>
    simp only [List.length_cons, List.length_append] at hfuel
    obtain ⟨fuel, rfl⟩ : ∃ n, fuel = n + 1 := ⟨fuel - 1, by omega⟩
    have hrest : readScript fuel (constant :: constants) routines (itemsOf rest) = _ :=
      ih (by omega)
    simp [readScript, ok_bind, h.read, hrest]
  | routine h _ ih =>
    have hpos := h.starts.length_pos
    rw [List.length_append] at hfuel
    obtain ⟨fuel, rfl⟩ : ∃ n, fuel = n + 1 := ⟨fuel - 1, by omega⟩
    rw [itemsOf_append, readScript_routine h (by omega), ih (by omega)]
    simp

end Grammar

end RoomForge.Script
