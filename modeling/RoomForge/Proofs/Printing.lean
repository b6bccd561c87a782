import Mathlib.Algebra.Ring.Int.Defs
import RoomForge.Proofs.Parsing
import RoomForge.Proofs.TokenRows

set_option autoImplicit false

/-! # Printed expressions

An expression can be written with parentheses only where its operators need them, and with no blanks
at all. Read back, it is the same expression: the tokens do not run together, since between any two
operands stands a sign, and the grammar groups them as they were. `printed_expressions_read_back` is
the result (specification, section 4.1).

The printer is no part of the program. It stands here to say that the trees of expressions lose
nothing of what a text can say.
-/

namespace RoomForge.Script

/-! ## Printing -/

/-- The sign of an operator with two operands. -/
def BinOp.sign : BinOp → Punct
  | .or => .orOr
  | .and => .andAnd
  | .eq => .eqEq
  | .ne => .notEq
  | .lt => .lt
  | .le => .le
  | .gt => .gt
  | .ge => .ge
  | .add => .plus
  | .sub => .minus
  | .mul => .star
  | .div => .slash
  | .mod => .percent

/-- The sign of an operator with one operand. -/
def UnOp.sign : UnOp → Punct
  | .neg => .minus
  | .not => .bang

/-- How tightly an expression holds together. -/
def Expr.level : Expr → Nat
  | .binary op _ _ => op.level
  | _ => Grammar.operandLevel

/-- The operand of a unary operator needs parentheses if it is binary, and behind a minus sign also
if it is a number, which would become negative. -/
def UnOp.parenthesizes : UnOp → Expr → Bool
  | _, .binary .. => true
  | .neg, .int value => 0 ≤ value
  | _, _ => false

/-- Tokens, in parentheses if need be. -/
def parenthesizedIf (needed : Bool) (tokens : List Token) : List Token :=
  if needed then .punct .lparen :: (tokens ++ [.punct .rparen]) else tokens

mutual

/-- The tokens of an expression, with parentheses only around the left operand of an operator that
binds tighter, around a right operand that binds no tighter than its operator, and where a unary
operator needs them. -/
def Expr.tokens : Expr → List Token
  | .int value =>
    if value < 0 then [.punct .minus, .number value.natAbs] else [.number value.natAbs]
  | .str text => [.str text]
  | .ident name => [.ident name]
  | .call name args => .ident name :: .punct .lparen :: (argTokens args ++ [.punct .rparen])
  | .unary op operand =>
    .punct op.sign :: parenthesizedIf (op.parenthesizes operand) operand.tokens
  | .binary op left right =>
    parenthesizedIf (left.level < op.level) left.tokens ++
      .punct op.sign :: parenthesizedIf (right.level ≤ op.level) right.tokens

/-- The tokens of arguments, with a comma between any two. -/
def argTokens : List Expr → List Token
  | [] => []
  | [arg] => arg.tokens
  | arg :: next :: rest => arg.tokens ++ .punct .comma :: argTokens (next :: rest)

end

/-- An expression that can be written: its numbers are not too large, and its names are names. -/
inductive Expr.Printable : Expr → Prop where
  | int {value : Int} (hlow : -2 ^ 31 < value) (hhigh : value < 2 ^ 31) : Printable (.int value)
  | str (text : String) : Printable (.str text)
  | ident {name : String} (hname : (Token.ident name).Writable) : Printable (.ident name)
  | call {name : String} {args : List Expr} (hname : (Token.ident name).Writable)
      (hargs : ∀ arg ∈ args, Printable arg) : Printable (.call name args)
  | unary (op : UnOp) {operand : Expr} (h : Printable operand) : Printable (.unary op operand)
  | binary (op : BinOp) {left right : Expr} (hleft : Printable left) (hright : Printable right) :
      Printable (.binary op left right)

theorem mem_parenthesizedIf {needed : Bool} {tokens : List Token} {token : Token}
    (h : token ∈ parenthesizedIf needed tokens) : token ∈ tokens ∨ ∃ sign, token = .punct sign := by
  unfold parenthesizedIf at h
  split at h
  · rcases List.mem_cons.mp h with rfl | h
    · exact .inr ⟨_, rfl⟩
    · rcases List.mem_append.mp h with h | h
      · exact .inl h
      · exact .inr ⟨_, List.mem_singleton.mp h⟩
  · exact .inl h

theorem writable_of_mem_argTokens {args : List Expr} {token : Token} (h : token ∈ argTokens args)
    (hargs : ∀ arg ∈ args, ∀ token ∈ arg.tokens, token.Writable) : token.Writable := by
  induction args with
  | nil => exact absurd h List.not_mem_nil
  | cons arg rest ih =>
    rw [List.forall_mem_cons] at hargs
    cases rest with
    | nil => exact hargs.1 token h
    | cons next rest =>
      rw [argTokens] at h
      rcases List.mem_append.mp h with h | h
      · exact hargs.1 token h
      · rcases List.mem_cons.mp h with rfl | h
        · trivial
        · exact ih h hargs.2

/-- Every token of a printable expression can be written. -/
theorem Expr.Printable.writable {e : Expr} (h : e.Printable) :
    ∀ token ∈ e.tokens, token.Writable := by
  induction h with
  | @int value hlow hhigh =>
    have hvalue : value.natAbs < 2 ^ 31 := by omega
    intro token htoken
    rw [Expr.tokens] at htoken
    split at htoken <;> simp only [List.mem_cons, List.not_mem_nil, or_false] at htoken
    · rcases htoken with rfl | rfl
      · trivial
      · exact hvalue
    · rw [htoken]
      exact hvalue
  | str text => simp [Expr.tokens, Token.Writable]
  | ident hname => simpa [Expr.tokens] using hname
  | call hname hargs ih =>
    intro token htoken
    rw [Expr.tokens, List.mem_cons, List.mem_cons, List.mem_append, List.mem_singleton] at htoken
    rcases htoken with rfl | rfl | htoken | rfl
    · exact hname
    · trivial
    · exact writable_of_mem_argTokens htoken ih
    · trivial
  | unary op _ ih =>
    intro token htoken
    rw [Expr.tokens] at htoken
    rcases List.mem_cons.mp htoken with rfl | htoken
    · trivial
    · rcases mem_parenthesizedIf htoken with htoken | ⟨sign, rfl⟩
      · exact ih token htoken
      · trivial
  | binary op _ _ ihleft ihright =>
    intro token htoken
    rw [Expr.tokens] at htoken
    rcases List.mem_append.mp htoken with htoken | htoken
    · rcases mem_parenthesizedIf htoken with htoken | ⟨sign, rfl⟩
      · exact ihleft token htoken
      · trivial
    · rcases List.mem_cons.mp htoken with rfl | htoken
      · trivial
      · rcases mem_parenthesizedIf htoken with htoken | ⟨sign, rfl⟩
        · exact ihright token htoken
        · trivial

/-! ## Printed tokens stand side by side -/

/-- A token that an expression can end with. -/
def EndsExpr : Token → Prop
  | .number _ | .str _ | .ident _ | .punct .rparen => True
  | _ => False

/-- No sign runs into the start of an expression. -/
theorem abuts_operand (sign : Punct) {token : Token} (h : Grammar.StartsExpr token)
    (hwritable : token.Writable) : Abuts (.punct sign) token := by
  have hstops : ∀ c : Char, c ≠ '/' → c ≠ '*' → c ≠ '=' → (Token.punct sign).stops c = true := by
    intro c hslash hstar hequals
    cases sign <;> simp [Token.stops, hslash, hstar, hequals]
  have hpart : ∀ c : Char, isNamePart c = true → (Token.punct sign).stops c = true := by
    intro c hc
    refine hstops c ?_ ?_ ?_ <;> rintro rfl <;> exact absurd hc (by decide)
  intro c hc
  cases token with
  | number value =>
    have hdigit := Nat.isDigit_of_mem_toDigits (by decide) (by decide) (List.mem_of_mem_head? hc)
    exact hpart c (isNamePart_of_isDigit hdigit)
  | str text =>
    obtain rfl := Option.some.inj hc
    exact hstops _ (by decide) (by decide) (by decide)
  | ident name =>
    obtain ⟨first, rest, hname, hfirst, -⟩ := hwritable
    rw [Token.spelling, hname] at hc
    obtain rfl := Option.some.inj hc
    exact hpart _ (isNamePart_of_isNameStart (by simpa [isNameStart] using hfirst))
  | punct other =>
    have hfirst : ∀ d ∈ other.text.toList.head?, d ≠ '/' ∧ d ≠ '*' ∧ d ≠ '=' := by
      cases other <;> simp_all [Grammar.StartsExpr, Punct.text]
    obtain ⟨hslash, hstar, hequals⟩ := hfirst c hc
    exact hstops c hslash hstar hequals
  | keyword | eof => exact h.elim

/-- The end of an expression does not run into a sign. -/
theorem abuts_sign (token : Token) (h : EndsExpr token) (sign : Punct) :
    Abuts token (.punct sign) := by
  intro c hc
  have hpart : isNamePart c = false := by
    obtain ⟨first, others, htext⟩ := List.exists_cons_of_ne_nil sign.text_ne_nil
    rw [Token.spelling, htext] at hc
    obtain rfl := Option.some.inj hc
    rw [Bool.eq_false_iff]
    intro hpart
    exact not_sign_at_head (.inl hpart) others sign (htext ▸ List.prefix_refl _)
  have hdigit := isDigit_eq_false_of_isNamePart hpart
  unfold EndsExpr at h
  split at h
  · simp [Token.stops, hdigit]
  · rfl
  · simp [Token.stops, hpart]
  · rfl
  · exact h.elim

/-- Between any two signs the tokens stand side by side, and with the signs. -/
def Fits (tokens : List Token) : Prop :=
  ∀ before after : Punct, List.IsChain Abuts (.punct before :: (tokens ++ [.punct after]))

theorem fits_token {token : Token} (hstarts : Grammar.StartsExpr token) (hends : EndsExpr token)
    (hwritable : token.Writable) : Fits [token] := by
  intro before after
  simp only [List.singleton_append, List.isChain_cons_cons, List.isChain_singleton, and_true]
  exact ⟨abuts_operand before hstarts hwritable, abuts_sign token hends after⟩

/-- A sign that an expression can start with. -/
theorem Fits.cons {tokens : List Token} (h : Fits tokens) {sign : Punct}
    (hstarts : Grammar.StartsExpr (.punct sign)) : Fits (.punct sign :: tokens) := by
  intro before after
  rw [List.cons_append, List.isChain_cons_cons]
  exact ⟨abuts_operand before hstarts trivial, h sign after⟩

theorem Fits.append {left right : List Token} (hleft : Fits left) (hright : Fits right)
    (sign : Punct) : Fits (left ++ .punct sign :: right) := by
  intro before after
  rw [List.append_assoc, List.cons_append, ← List.cons_append, List.isChain_split]
  exact ⟨hleft before sign, hright sign after⟩

theorem Fits.parenthesized {tokens : List Token} (h : Fits tokens) :
    Fits (.punct .lparen :: (tokens ++ [.punct .rparen])) := by
  intro before after
  rw [List.cons_append, List.append_assoc, List.singleton_append, List.isChain_cons_cons,
    ← List.cons_append, List.isChain_split]
  refine ⟨abuts_operand before trivial trivial, h .lparen .rparen, ?_⟩
  rw [List.isChain_pair]
  exact abuts_sign (.punct .rparen) trivial after

theorem Fits.parenthesizedIf {tokens : List Token} (h : Fits tokens) (needed : Bool) :
    Fits (parenthesizedIf needed tokens) := by
  unfold Script.parenthesizedIf
  split
  · exact h.parenthesized
  · exact h

theorem fits_argTokens {args : List Expr} (hne : args ≠ []) (h : ∀ arg ∈ args, Fits arg.tokens) :
    Fits (argTokens args) := by
  induction args with
  | nil => exact absurd rfl hne
  | cons arg rest ih =>
    rw [List.forall_mem_cons] at h
    cases rest with
    | nil => exact h.1
    | cons next rest => exact h.1.append (ih (List.cons_ne_nil _ _) h.2) .comma

theorem fits_noArguments : Fits [.punct .lparen, .punct .rparen] := by
  intro before after
  simp only [List.cons_append, List.nil_append, List.isChain_cons_cons, List.isChain_singleton,
    and_true]
  exact ⟨abuts_operand before trivial trivial, fun _ _ => rfl,
    abuts_sign (.punct .rparen) trivial after⟩

/-- A name in front of the parentheses of a call. -/
theorem Fits.call {name : String} {tokens : List Token}
    (h : Fits (.punct .lparen :: tokens)) (hname : (Token.ident name).Writable) :
    Fits (.ident name :: .punct .lparen :: tokens) := by
  intro before after
  rw [List.cons_append, List.isChain_cons_cons, List.cons_append, List.isChain_cons_cons]
  exact ⟨abuts_operand before trivial hname, abuts_sign (.ident name) trivial .lparen,
    (h before after).tail⟩

theorem Expr.Printable.fits {e : Expr} (h : e.Printable) : Fits e.tokens := by
  induction h with
  | @int value hlow hhigh =>
    have hnumber : Fits [.number value.natAbs] :=
      fits_token trivial trivial (by simp only [Token.Writable]; omega)
    rw [Expr.tokens]
    split
    · exact hnumber.cons trivial
    · exact hnumber
  | str text => exact fits_token trivial trivial trivial
  | ident hname => exact fits_token trivial trivial hname
  | @call name args hname hargs ih =>
    refine Fits.call ?_ hname
    by_cases hne : args = []
    · rw [hne]
      exact fits_noArguments
    · exact (fits_argTokens hne ih).parenthesized
  | unary op _ ih =>
    refine (ih.parenthesizedIf _).cons ?_
    cases op <;> trivial
  | binary op _ _ ihleft ihright =>
    exact (ihleft.parenthesizedIf _).append (ihright.parenthesizedIf _) op.sign

/-! ## Printed tokens stand for their expression -/

namespace Grammar

theorem exists_of_map_token_cons {lexemes : List Lexeme} {token : Token} {tokens : List Token}
    (h : lexemes.map Lexeme.token = token :: tokens) :
    ∃ line rest, lexemes = ⟨token, line⟩ :: rest ∧ rest.map Lexeme.token = tokens := by
  obtain ⟨⟨_, line⟩, rest, rfl, rfl, hrest⟩ := List.map_eq_cons_iff.mp h
  exact ⟨line, rest, rfl, hrest⟩

theorem exists_of_map_token_singleton {lexemes : List Lexeme} {token : Token}
    (h : lexemes.map Lexeme.token = [token]) : ∃ line, lexemes = [⟨token, line⟩] := by
  obtain ⟨line, rest, rfl, hrest⟩ := exists_of_map_token_cons h
  exact ⟨line, by rw [List.map_eq_nil_iff.mp hrest]⟩

theorem exists_of_map_token_parenthesized {lexemes : List Lexeme} {tokens : List Token}
    (h : lexemes.map Lexeme.token = .punct .lparen :: (tokens ++ [.punct .rparen])) :
    ∃ opening inner closing, lexemes = sign .lparen opening :: (inner ++ [sign .rparen closing]) ∧
      inner.map Lexeme.token = tokens := by
  obtain ⟨opening, rest, rfl, hrest⟩ := exists_of_map_token_cons h
  obtain ⟨inner, last, rfl, hinner, hlast⟩ := List.map_eq_append_iff.mp hrest
  obtain ⟨closing, rfl⟩ := exists_of_map_token_singleton hlast
  exact ⟨opening, inner, closing, rfl, hinner⟩

/-- Whatever their lines, the tokens stand for the expression, at its own level. -/
def Stand (tokens : List Token) (e : Expr) : Prop :=
  ∀ lexemes : List Lexeme, lexemes.map Lexeme.token = tokens →
    Binary e.level lexemes e ∧ (e.level = operandLevel → Unary lexemes e)

theorem stand_of_unary {tokens : List Token} {e : Expr} (hlevel : e.level = operandLevel)
    (h : ∀ lexemes : List Lexeme, lexemes.map Lexeme.token = tokens → Unary lexemes e) :
    Stand tokens e :=
  fun lexemes hlexemes => ⟨hlevel ▸ .operand (h lexemes hlexemes), fun _ => h lexemes hlexemes⟩

theorem one_le_level (e : Expr) : 1 ≤ e.level := by
  cases e with
  | binary op _ _ => cases op <;> exact Nat.le_of_ble_eq_true rfl
  | _ => exact Nat.le_of_ble_eq_true rfl

theorem Stand.expression {tokens : List Token} {e : Expr} (h : Stand tokens e)
    {lexemes : List Lexeme} (hlexemes : lexemes.map Lexeme.token = tokens) : Expression lexemes e :=
  (h lexemes hlexemes).1.loosen (one_le_level e)

theorem Stand.parenthesized {tokens : List Token} {e : Expr} (h : Stand tokens e)
    {lexemes : List Lexeme}
    (hlexemes : lexemes.map Lexeme.token = .punct .lparen :: (tokens ++ [.punct .rparen])) :
    Unary lexemes e := by
  obtain ⟨opening, inner, closing, rfl, hinner⟩ := exists_of_map_token_parenthesized hlexemes
  exact .primary (.paren opening closing (h.expression hinner))

/-- With parentheses around what is looser, the tokens stand at the level wanted. -/
theorem Stand.parenthesizedIf {tokens : List Token} {e : Expr} (h : Stand tokens e) {level : Nat}
    (hlevel : level ≤ operandLevel) {lexemes : List Lexeme}
    (hlexemes : lexemes.map Lexeme.token = parenthesizedIf (e.level < level) tokens) :
    Binary level lexemes e := by
  unfold Script.parenthesizedIf at hlexemes
  split at hlexemes
  · exact (Binary.operand (h.parenthesized hlexemes)).loosen hlevel
  · next hloose => exact (h lexemes hlexemes).1.loosen (by simpa using hloose)

theorem stand_args {args : List Expr} (hne : args ≠ []) (h : ∀ arg ∈ args, Stand arg.tokens arg)
    {lexemes : List Lexeme} (hlexemes : lexemes.map Lexeme.token = argTokens args) :
    Args lexemes args := by
  induction args generalizing lexemes with
  | nil => exact absurd rfl hne
  | cons arg rest ih =>
    rw [List.forall_mem_cons] at h
    cases rest with
    | nil => exact .last (h.1.expression hlexemes)
    | cons next rest =>
      obtain ⟨first, behind, rfl, hfirst, hbehind⟩ := List.map_eq_append_iff.mp hlexemes
      obtain ⟨comma, others, rfl, hothers⟩ := exists_of_map_token_cons hbehind
      exact .more comma (h.1.expression hfirst) (ih (List.cons_ne_nil _ _) h.2 hothers)

theorem level_of_parenthesizes {op : UnOp} {operand : Expr}
    (h : op.parenthesizes operand = false) : operand.level = operandLevel := by
  cases operand with
  | binary => exact absurd h (by simp [UnOp.parenthesizes])
  | _ => rfl

theorem Stand.operand {operand : Expr} (h : Stand operand.tokens operand) {op : UnOp}
    {lexemes : List Lexeme}
    (hlexemes : lexemes.map Lexeme.token =
      Script.parenthesizedIf (op.parenthesizes operand) operand.tokens) :
    Unary lexemes operand := by
  unfold Script.parenthesizedIf at hlexemes
  split at hlexemes
  · exact h.parenthesized hlexemes
  · next hnone =>
    exact (h lexemes hlexemes).2 (level_of_parenthesizes (Bool.eq_false_iff.mpr hnone))

/-- Behind a minus sign no number is printed without parentheses. -/
theorem head?_ne_number {operand : Expr} (value : Nat) :
    (Script.parenthesizedIf (UnOp.neg.parenthesizes operand) operand.tokens).head? ≠
      some (.number value) := by
  unfold Script.parenthesizedIf
  split
  · simp
  · next hnone =>
    cases operand with
    | int literal =>
      have hnegative : literal < 0 := by simpa [UnOp.parenthesizes] using hnone
      simp [Expr.tokens, hnegative]
    | binary => exact absurd rfl hnone
    | _ => simp [Expr.tokens]

end Grammar

open Grammar in
/-- The tokens of a printed expression stand for it. -/
theorem Expr.Printable.stand {e : Expr} (h : e.Printable) : Stand e.tokens e := by
  induction h with
  | @int value hlow hhigh =>
    refine stand_of_unary rfl fun lexemes hlexemes => ?_
    rw [Expr.tokens] at hlexemes
    split at hlexemes
    · obtain ⟨minus, rest, rfl, hrest⟩ := exists_of_map_token_cons hlexemes
      obtain ⟨line, rfl⟩ := exists_of_map_token_singleton hrest
      have hvalue : -(value.natAbs : Int) = value := by omega
      have hunary := Unary.negative value.natAbs minus line
      rwa [hvalue] at hunary
    · obtain ⟨line, rfl⟩ := exists_of_map_token_singleton hlexemes
      have hvalue : (value.natAbs : Int) = value := by omega
      have hprimary := Primary.int value.natAbs line
      rw [hvalue] at hprimary
      exact .primary hprimary
  | str text =>
    refine stand_of_unary rfl fun lexemes hlexemes => ?_
    obtain ⟨line, rfl⟩ := exists_of_map_token_singleton hlexemes
    exact .primary (.str text line)
  | @ident name hname =>
    refine stand_of_unary rfl fun lexemes hlexemes => ?_
    obtain ⟨line, rfl⟩ := exists_of_map_token_singleton hlexemes
    exact .primary (.ident name line)
  | @call name args hname hargs ih =>
    refine stand_of_unary rfl fun lexemes hlexemes => ?_
    obtain ⟨line, rest, rfl, hrest⟩ := exists_of_map_token_cons hlexemes
    obtain ⟨opening, inner, closing, rfl, hinner⟩ := exists_of_map_token_parenthesized hrest
    by_cases hne : args = []
    · subst hne
      rw [List.map_eq_nil_iff.mp hinner]
      exact .primary (.callNone name line opening closing)
    · exact .primary (.call name line opening closing (stand_args hne ih hinner))
  | unary op _ ih =>
    refine stand_of_unary rfl fun lexemes hlexemes => ?_
    obtain ⟨line, rest, rfl, hrest⟩ := exists_of_map_token_cons hlexemes
    have hoperand := ih.operand hrest
    cases op with
    | neg =>
      refine .neg line hoperand fun value => ?_
      rw [← List.head?_map, hrest]
      exact head?_ne_number value
    | not => exact .not line hoperand
  | @binary op left right _ _ ihleft ihright =>
    intro lexemes hlexemes
    obtain ⟨front, behind, rfl, hfront, hbehind⟩ := List.map_eq_append_iff.mp hlexemes
    obtain ⟨line, rest, rfl, hrest⟩ := exists_of_map_token_cons hbehind
    have hlevel := level_lt_operandLevel op
    have hop : Operator op.level op.sign op := by cases op <;> constructor
    have hright : right.level ≤ op.level ↔ right.level < op.level + 1 := Nat.lt_succ_iff.symm
    refine ⟨.apply line hop (ihleft.parenthesizedIf hlevel.le hfront)
      (ihright.parenthesizedIf hlevel ?_), fun heq => absurd heq hlevel.ne⟩
    rw [hrest, decide_eq_decide.mpr hright]

/-! ## Reading back -/

theorem exists_rowLexemes_append (front rest : List (Token × List Char)) (line : Nat) :
    ∃ lexemes behind, rowLexemes line (front ++ rest) = lexemes ++ rowLexemes behind rest ∧
      lexemes.map Lexeme.token = front.map Prod.fst ∧
      ∀ first ∈ lexemes.head?, first.line = line := by
  induction front generalizing line with
  | nil => exact ⟨[], line, rfl, rfl, by simp⟩
  | cons piece front ih =>
    obtain ⟨lexemes, behind, hrow, htokens, -⟩ :=
      ih (line + (piece.1.spelling ++ piece.2).count '\n')
    refine ⟨⟨piece.1, line⟩ :: lexemes, behind, ?_, by simp [htokens], by simp⟩
    rw [List.cons_append, rowLexemes, hrow, List.cons_append]

/-- The start of a function without parameters. -/
def functionHead : List (Token × List Char) :=
  [(.keyword .functionWord, [' ']), (.ident "f", []), (.punct .lparen, []),
    (.punct .rparen, [' ']), (.punct .lbrace, [' '])]

/-- The end of a statement and of the function around it. -/
def functionEnd : List (Token × List Char) :=
  [(.punct .semicolon, [' ']), (.punct .rbrace, [])]

open Grammar in
theorem whole_of_expression {lexemes : List Lexeme} {e : Expr} (h : Expression lexemes e)
    (hline : ∀ first ∈ lexemes.head?, first.line = 1) (line : Nat) :
    Whole (word .functionWord 1 :: ⟨.ident "f", 1⟩ :: sign .lparen 1 :: sign .rparen 1 ::
        sign .lbrace 1 :: (lexemes ++ rowLexemes line functionEnd))
      { routines :=
        [{ name := "f", kind := .normal, body := .block 1 [.eval 1 e], line := 1 }] } := by
  have hfirst : lineOf lexemes = 1 := by
    obtain ⟨first, rest, rfl, -⟩ := h.starts
    exact hline first rfl
  have hbody := Body.cons (.simple line (.eval h)) .nil
  rw [hfirst] at hbody
  have hwhole := Whole.routine (.normal 1 (.mk "f" 1 1 1 1 line hbody)) (.eof line)
  simpa [rowLexemes, functionEnd, Token.spelling, Punct.text] using hwhole

theorem legible_function {row : List (Token × List Char)}
    (hwritable : ∀ piece ∈ row, piece.1.Writable)
    (hblanks : ∀ piece ∈ row, ∀ c ∈ piece.2, Text.isBlank c = true)
    (hfits : Fits (row.map Prod.fst)) : Legible (functionHead ++ (row ++ functionEnd)) := by
  have hname : (Token.ident "f").Writable :=
    ⟨'f', [], rfl, by decide, by simp, by intro keyword; cases keyword <;> decide⟩
  have hsign : ∀ sign : Punct, (Token.punct sign).Writable := fun _ => trivial
  have hspace : Text.isBlank ' ' = true := rfl
  refine ⟨trivial, by simpa using hspace, ?_, legible_of_isChain ?_ ?_ ?_⟩
  · intro c hc
    rw [← Option.some.inj hc]
    rfl
  · simpa [functionEnd, or_imp, forall_and, hname, hsign] using hwritable
  · simpa [functionEnd, or_imp, forall_and, hspace] using hblanks
  · simp only [List.append_eq, List.map_append, List.map_cons, List.map_nil, List.cons_append,
      List.nil_append, List.isChain_cons_cons, functionEnd]
    refine ⟨abuts_sign (.ident "f") trivial .lparen, fun _ _ => rfl,
      abuts_sign (.punct .rparen) trivial .lbrace, ?_⟩
    rw [← List.cons_append, List.isChain_split, List.isChain_pair]
    exact ⟨hfits .lbrace .semicolon, fun _ _ => rfl⟩

/-- A printed expression is read back. With the tokens of its printed form written one behind the
other, and any blanks or none behind each of them, it makes a function of one statement, which is
parsed to that expression. -/
theorem printed_expressions_read_back (e : Expr) (he : e.Printable) (row : List (Token × List Char))
    (htokens : row.map Prod.fst = e.tokens)
    (hblanks : ∀ piece ∈ row, ∀ c ∈ piece.2, Text.isBlank c = true) :
    parse ("function f() \x7b " ++ String.ofList (rowChars row) ++ "; \x7d") =
      .ok { routines :=
        [{ name := "f", kind := .normal, body := .block 1 [.eval 1 e], line := 1 }] } := by
  have hwritable : ∀ piece ∈ row, piece.1.Writable := fun piece hpiece =>
    he.writable piece.1 (htokens ▸ List.mem_map_of_mem hpiece)
  have hlegible := legible_function hwritable hblanks (htokens ▸ he.fits)
  obtain ⟨lexemes, behind, hrow, hlexemes, hline⟩ := exists_rowLexemes_append row functionEnd 1
  have hexpr := he.stand.expression (hlexemes.trans htokens)
  refine parse_of_whole ?_ (whole_of_expression hexpr hline behind)
  have htext : ("function f() \x7b " ++ String.ofList (rowChars row) ++ "; \x7d").toList =
      [] ++ rowChars (functionHead ++ (row ++ functionEnd)) := by
    simp [rowChars, functionHead, functionEnd, Token.spelling, Keyword.text, Punct.text]
  rw [items, htext, itemsFrom_row hlegible (by simp), ← hrow]
  rfl

/-- Five, negated, less a product of a difference and a call. -/
def netGain : Expr :=
  .binary .sub (.unary .neg (.int 5))
    (.binary .mul (.binary .sub (.ident "x") (.int (-2)))
      (.unary .not (.call "g" [.str "\"", .binary .sub (.ident "x") (.ident "x")])))

/-- The tokens of `netGain`, with a line break behind the third. -/
def netGainRow : List (Token × List Char) :=
  [(.punct .minus, []), (.punct .lparen, []), (.number 5, ['\n', ' ']), (.punct .rparen, []),
    (.punct .minus, []), (.punct .lparen, []), (.ident "x", []), (.punct .minus, []),
    (.punct .minus, []), (.number 2, []), (.punct .rparen, []), (.punct .star, []),
    (.punct .bang, []), (.ident "g", []), (.punct .lparen, []), (.str "\"", []),
    (.punct .comma, []), (.ident "x", []), (.punct .minus, []), (.ident "x", []),
    (.punct .rparen, [])]

theorem netGain_reads_back :
    parse "function f() \x7b -(5\n )-(x--2)*!g(\"\\\"\",x-x); \x7d" =
      .ok { routines :=
        [{ name := "f", kind := .normal, body := .block 1 [.eval 1 netGain], line := 1 }] } := by
  have hx : (Token.ident "x").Writable :=
    ⟨'x', [], rfl, by decide, by simp, by intro keyword; cases keyword <;> decide⟩
  have hg : (Token.ident "g").Writable :=
    ⟨'g', [], rfl, by decide, by simp, by intro keyword; cases keyword <;> decide⟩
  have hprintable : netGain.Printable := by
    refine .binary _ (.unary _ (.int (by decide) (by decide))) (.binary _ (.binary _ (.ident hx)
      (.int (by decide) (by decide))) (.unary _ (.call hg ?_)))
    simpa using ⟨.str _, .binary _ (.ident hx) (.ident hx)⟩
  have hblanks : ∀ piece ∈ netGainRow, ∀ c ∈ piece.2, Text.isBlank c = true := by
    simp [netGainRow, Text.isBlank]
  exact printed_expressions_read_back netGain hprintable netGainRow rfl hblanks

end RoomForge.Script
