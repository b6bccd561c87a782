import Mathlib.Tactic.SplitIfs
import RoomForge.Proofs.Fallible
import RoomForge.Proofs.Grammar

set_option autoImplicit false

/-! # What is read is in the grammar

Whatever a reader of the parser takes off the front of the items is a row of tokens, without faults,
that the grammar derives the answer from (specification, section 4.1). Readers that go on as long as
they can also say what they stopped at: expressions end before a looser operator, and an `if`
without an `else` is not followed by one.

`readScript_recognized` is the result for whole scripts. It is one half of `Proofs.Parsing`; the
other is `Proofs.Acceptance`.
-/

namespace RoomForge.Script

/-- Tokens as the items of a text. -/
def itemsOf (lexemes : List Lexeme) : List Item :=
  lexemes.map .ok

@[simp] theorem itemsOf_nil : itemsOf [] = [] := rfl

@[simp] theorem itemsOf_cons (lexeme : Lexeme) (rest : List Lexeme) :
    itemsOf (lexeme :: rest) = .ok lexeme :: itemsOf rest := rfl

@[simp] theorem itemsOf_append (first second : List Lexeme) :
    itemsOf (first ++ second) = itemsOf first ++ itemsOf second :=
  List.map_append

@[simp] theorem length_itemsOf (lexemes : List Lexeme) :
    (itemsOf lexemes).length = lexemes.length :=
  List.length_map _

/-- The next token exists and has the property. -/
def NextIs (property : Token → Prop) (items : List Item) : Prop :=
  ∃ next, peek items = .ok next ∧ property next.token

/-- The items start with a phrase for the tree, and go on with `rest`. -/
def Opens {α : Type} (Phrase : List Lexeme → α → Prop) (items : List Item) (tree : α)
    (rest : List Item) : Prop :=
  ∃ lexemes, items = itemsOf lexemes ++ rest ∧ Phrase lexemes tree

namespace Grammar

/-! ## Single tokens -/

section

variable {items rest : List Item}

/-- A token other than the end is the first item. -/
theorem eq_cons_of_peek {next : Lexeme} (h : peek items = .ok next) (hne : next.token ≠ .eof) :
    items = .ok next :: items.tail := by
  cases items with
  | nil =>
    obtain rfl := Except.ok.inj h
    exact absurd rfl hne
  | cons item behind =>
    have hitem : item = .ok next := h
    rw [hitem]
    rfl

theorem unexpected_ne_ok {α : Type} {wanted : Wanted} {next : Lexeme} {result : Parsed α} :
    unexpected wanted next ≠ .ok result := by
  simp [unexpected]

theorem outOfFuel_ne_ok {α : Type} {result : Parsed α} : outOfFuel items ≠ .ok result := by
  intro h
  obtain ⟨next, _, hrest⟩ := bind_eq_ok_iff.mp h
  exact absurd hrest (by simp)

theorem expect_ok {token : Token} {wanted : Wanted} {u : Unit} (hne : token ≠ .eof)
    (h : expect token wanted items = .ok (u, rest)) :
    ∃ line, items = .ok ⟨token, line⟩ :: rest := by
  obtain ⟨⟨found, line⟩, hnext, hrest⟩ := bind_eq_ok_iff.mp h
  split at hrest
  · next htoken =>
    obtain ⟨_, rfl⟩ := Prod.mk.inj (Except.ok.inj hrest)
    obtain rfl : found = token := htoken
    exact ⟨line, eq_cons_of_peek hnext hne⟩
  · exact absurd hrest unexpected_ne_ok

theorem expectSign_ok {punct : Punct} {u : Unit} (h : expectSign punct items = .ok (u, rest)) :
    ∃ line, items = .ok (sign punct line) :: rest :=
  expect_ok (by simp) h

theorem readName_ok {wanted : Wanted} {name : String}
    (h : readName wanted items = .ok (name, rest)) :
    ∃ line, items = .ok ⟨.ident name, line⟩ :: rest := by
  obtain ⟨⟨token, line⟩, hnext, hrest⟩ := bind_eq_ok_iff.mp h
  split at hrest
  · next found htoken =>
    obtain ⟨rfl, rfl⟩ := Prod.mk.inj (Except.ok.inj hrest)
    obtain rfl : token = .ident found := htoken
    exact ⟨line, eq_cons_of_peek hnext (by simp)⟩
  · exact absurd hrest unexpected_ne_ok

end

/-! ## Operators -/

/-- The reader's table of operators is the grammar's. -/
theorem operator_iff {level : Nat} {punct : Punct} {op : BinOp} :
    Operator level punct op ↔ BinOp.ofSign? punct = some op ∧ op.level = level := by
  constructor
  · intro h
    cases h <;> exact ⟨rfl, rfl⟩
  · rintro ⟨hop, rfl⟩
    cases punct <;> simp only [BinOp.ofSign?, Option.some.injEq, reduceCtorEq] at hop <;>
      subst hop <;> constructor

theorem exists_sign_of_ofToken? {token : Token} {op : BinOp} (h : BinOp.ofToken? token = some op) :
    ∃ punct, token = .punct punct ∧ Operator op.level punct op := by
  cases token with
  | punct punct => exact ⟨punct, rfl, operator_iff.mpr ⟨h, rfl⟩⟩
  | _ => exact absurd h (by simp [BinOp.ofToken?])

theorem level_lt_operandLevel (op : BinOp) : op.level < operandLevel := by
  cases op <;> decide

/-- A token that is no operator of the level or of a higher one. -/
def Below (level : Nat) (token : Token) : Prop :=
  ∀ op, BinOp.ofToken? token = some op → op.level < level

theorem below_of_ofToken?_eq_none {level : Nat} {token : Token} (h : BinOp.ofToken? token = none) :
    Below level token := by
  intro op hop
  exact absurd (h.symm.trans hop) (by simp)

theorem below_operandLevel (token : Token) : Below operandLevel token :=
  fun op _ => level_lt_operandLevel op

theorem sign_of_unOp {token : Token} {op : UnOp} (h : UnOp.ofToken? token = some op) :
    token = .punct .minus ∧ op = .neg ∨ token = .punct .bang ∧ op = .not := by
  unfold UnOp.ofToken? at h
  split at h
  · exact .inl ⟨rfl, (Option.some.inj h).symm⟩
  · exact .inr ⟨rfl, (Option.some.inj h).symm⟩
  · exact absurd h (by simp)

/-! ## Expressions -/

/-- What the readers of expressions take, with a given fuel. -/
structure ExprsRecognized (fuel : Nat) : Prop where
  binary : ∀ {level : Nat} {items rest : List Item} {expr : Expr}, level ≤ operandLevel →
    readBinary fuel level items = .ok (expr, rest) →
    Opens (Binary level) items expr rest ∧ NextIs (Below level) rest
  /-- The operator behind the left operand binds no tighter than the operand. -/
  operators : ∀ {level outer : Nat} {items rest : List Item} {left : List Lexeme}
    {leftExpr expr : Expr}, level ≤ outer → Binary outer left leftExpr →
    (∀ next, peek items = .ok next → Below (outer + 1) next.token) →
    readOperators fuel level leftExpr items = .ok (expr, rest) →
    Opens (fun lexemes => Binary level (left ++ lexemes)) items expr rest ∧
      NextIs (Below level) rest
  unary : ∀ {items rest : List Item} {expr : Expr}, readUnary fuel items = .ok (expr, rest) →
    Opens Unary items expr rest
  primary : ∀ {items rest : List Item} {expr : Expr}, readPrimary fuel items = .ok (expr, rest) →
    Opens Primary items expr rest
  args : ∀ {items rest : List Item} {taken args : List Expr},
    readArgs fuel taken items = .ok (args, rest) →
    ∃ found closing, args = taken.reverse ++ found ∧
      Opens Args items found (.ok (sign .rparen closing) :: rest)

section

variable {fuel : Nat} {items rest : List Item}

theorem readBinary_recognized (ih : ExprsRecognized fuel) {level : Nat} {expr : Expr}
    (hle : level ≤ operandLevel) (h : readBinary (fuel + 1) level items = .ok (expr, rest)) :
    Opens (Binary level) items expr rest ∧ NextIs (Below level) rest := by
  rw [readBinary] at h
  obtain ⟨⟨leftExpr, behind⟩, hleft, hrest⟩ := bind_eq_ok_iff.mp h
  obtain ⟨left, rfl, hunary⟩ := ih.unary hleft
  have hnext : ∀ next, peek behind = .ok next → Below (operandLevel + 1) next.token :=
    fun next _ op hop => Nat.lt_succ_of_lt (below_operandLevel next.token op hop)
  obtain ⟨⟨lexemes, rfl, hbinary⟩, hstop⟩ := ih.operators hle (.operand hunary) hnext hrest
  exact ⟨⟨left ++ lexemes, by simp, hbinary⟩, hstop⟩

theorem readOperators_recognized (ih : ExprsRecognized fuel) {level outer : Nat}
    {left : List Lexeme} {leftExpr expr : Expr} (hle : level ≤ outer)
    (hleft : Binary outer left leftExpr)
    (hnext : ∀ next, peek items = .ok next → Below (outer + 1) next.token)
    (h : readOperators (fuel + 1) level leftExpr items = .ok (expr, rest)) :
    Opens (fun lexemes => Binary level (left ++ lexemes)) items expr rest ∧
      NextIs (Below level) rest := by
  rw [readOperators] at h
  obtain ⟨⟨token, line⟩, hpeek, h⟩ := bind_eq_ok_iff.mp h
  have hstop : Below level token →
      .ok (leftExpr, items) = Except.ok (ε := SyntaxError) (expr, rest) →
      Opens (fun lexemes => Binary level (left ++ lexemes)) items expr rest ∧
        NextIs (Below level) rest := by
    intro hbelow hresult
    obtain ⟨rfl, rfl⟩ := Prod.mk.inj (Except.ok.inj hresult)
    exact ⟨⟨[], rfl, by simpa using hleft.loosen hle⟩, _, hpeek, hbelow⟩
  split at h
  · next hnone => exact hstop (below_of_ofToken?_eq_none hnone) h
  · next op hop =>
    split at h
    · next hlow =>
      refine hstop ?_ h
      intro other hother
      obtain rfl := Option.some.inj (hop.symm.trans hother)
      exact hlow
    · next hlow =>
      obtain ⟨⟨rightExpr, behind⟩, hright, hrest⟩ := bind_eq_ok_iff.mp h
      obtain ⟨punct, rfl, hoperator⟩ := exists_sign_of_ofToken? hop
      obtain ⟨⟨right, hbehind, hbinary⟩, hbelow⟩ := ih.binary (level_lt_operandLevel op) hright
      have houter : op.level ≤ outer := Nat.le_of_lt_succ (hnext _ hpeek op hop)
      have happly := Binary.apply line hoperator (hleft.loosen houter) hbinary
      have hafter : ∀ next, peek behind = .ok next → Below (op.level + 1) next.token := by
        intro next hpeek
        obtain ⟨found, hfound, hbelow⟩ := hbelow
        obtain rfl := Except.ok.inj (hfound.symm.trans hpeek)
        exact hbelow
      obtain ⟨⟨last, hlast, hwhole⟩, hend⟩ :=
        ih.operators (Nat.le_of_not_lt hlow) happly hafter hrest
      refine ⟨⟨sign punct line :: (right ++ last), ?_, by simpa using hwhole⟩, hend⟩
      rw [eq_cons_of_peek hpeek (by simp), hbehind, hlast]
      simp

theorem readUnary_recognized (ih : ExprsRecognized fuel) {expr : Expr}
    (h : readUnary (fuel + 1) items = .ok (expr, rest)) : Opens Unary items expr rest := by
  simp only [readUnary, bind_eq_ok_iff] at h
  obtain ⟨⟨token, line⟩, hpeek, h⟩ := h
  split at h
  · obtain ⟨lexemes, rfl, hprimary⟩ := ih.primary h
    exact ⟨lexemes, rfl, .primary hprimary⟩
  · next op hop =>
    rw [bind_eq_ok_iff] at h
    obtain ⟨⟨second, secondLine⟩, hsecond, h⟩ := h
    split at h
    · next value hnumber =>
      obtain ⟨rfl, rfl⟩ := Prod.mk.inj (Except.ok.inj h)
      obtain rfl : second = .number value := hnumber
      obtain ⟨rfl, -⟩ | ⟨-, hnot⟩ := sign_of_unOp hop
      · rw [eq_cons_of_peek hpeek (by simp), eq_cons_of_peek hsecond (by simp)]
        exact ⟨_, rfl, .negative value line secondLine⟩
      · exact absurd hnot (by simp)
    · next hnumber =>
      obtain ⟨⟨operand, behind⟩, hoperand, hresult⟩ := bind_eq_ok_iff.mp h
      obtain ⟨rfl, rfl⟩ := Prod.mk.inj (Except.ok.inj hresult)
      obtain ⟨lexemes, hlexemes, hunary⟩ := ih.unary hoperand
      obtain ⟨first, others, rfl, -⟩ := hunary.starts
      rw [hlexemes] at hsecond
      obtain rfl : first = ⟨second, secondLine⟩ := Except.ok.inj hsecond
      obtain ⟨rfl, rfl⟩ | ⟨rfl, rfl⟩ := sign_of_unOp hop
      · rw [eq_cons_of_peek hpeek (by simp), hlexemes]
        refine ⟨_, rfl, .neg line hunary ?_⟩
        intro value hvalue
        exact hnumber value rfl (Option.some.inj hvalue)
      · rw [eq_cons_of_peek hpeek (by simp), hlexemes]
        exact ⟨_, rfl, .not line hunary⟩

theorem readPrimary_recognized (ih : ExprsRecognized fuel) {expr : Expr}
    (h : readPrimary (fuel + 1) items = .ok (expr, rest)) : Opens Primary items expr rest := by
  rw [readPrimary] at h
  obtain ⟨⟨token, line⟩, hpeek, h⟩ := bind_eq_ok_iff.mp h
  dsimp only at h
  split at h
  · next value =>
    obtain ⟨rfl, rfl⟩ := Prod.mk.inj (Except.ok.inj h)
    rw [eq_cons_of_peek hpeek (by simp)]
    exact ⟨_, rfl, .int value line⟩
  · next text =>
    obtain ⟨rfl, rfl⟩ := Prod.mk.inj (Except.ok.inj h)
    rw [eq_cons_of_peek hpeek (by simp)]
    exact ⟨_, rfl, .str text line⟩
  · next name =>
    obtain ⟨⟨second, opening⟩, hsecond, h⟩ := bind_eq_ok_iff.mp h
    rw [eq_cons_of_peek hpeek (by simp)]
    split at h
    · next hparen =>
      obtain rfl : second = .punct .lparen := hparen
      obtain ⟨⟨third, closing⟩, hthird, h⟩ := bind_eq_ok_iff.mp h
      rw [eq_cons_of_peek hsecond (by simp)]
      split at h
      · next hparen =>
        obtain rfl : third = .punct .rparen := hparen
        obtain ⟨rfl, rfl⟩ := Prod.mk.inj (Except.ok.inj h)
        rw [eq_cons_of_peek hthird (by simp)]
        exact ⟨_, rfl, .callNone name line opening closing⟩
      · obtain ⟨⟨args, behind⟩, hargs, hresult⟩ := bind_eq_ok_iff.mp h
        obtain ⟨rfl, rfl⟩ := Prod.mk.inj (Except.ok.inj hresult)
        obtain ⟨found, closing, rfl, inner, hinner, hfound⟩ := ih.args hargs
        rw [hinner]
        exact ⟨_, by simp, .call name line opening closing hfound⟩
    · obtain ⟨rfl, rfl⟩ := Prod.mk.inj (Except.ok.inj h)
      exact ⟨_, rfl, .ident name line⟩
  · obtain ⟨⟨inner, behind⟩, hinner, h⟩ := bind_eq_ok_iff.mp h
    obtain ⟨⟨_, last⟩, hclosing, hresult⟩ := bind_eq_ok_iff.mp h
    obtain ⟨rfl, rfl⟩ := Prod.mk.inj (Except.ok.inj hresult)
    obtain ⟨⟨lexemes, hlexemes, hbinary⟩, -⟩ := ih.binary (by decide) hinner
    obtain ⟨closing, rfl⟩ := expectSign_ok hclosing
    rw [eq_cons_of_peek hpeek (by simp), hlexemes]
    exact ⟨_, by simp, .paren line closing hbinary⟩
  · exact absurd h unexpected_ne_ok

theorem readArgs_recognized (ih : ExprsRecognized fuel) {taken args : List Expr}
    (h : readArgs (fuel + 1) taken items = .ok (args, rest)) :
    ∃ found closing, args = taken.reverse ++ found ∧
      Opens Args items found (.ok (sign .rparen closing) :: rest) := by
  simp only [readArgs, bind_eq_ok_iff, Prod.exists] at h
  obtain ⟨arg, behind, harg, ⟨token, line⟩, hpeek, h⟩ := h
  obtain ⟨⟨first, rfl, hfirst⟩, -⟩ := ih.binary (by decide) harg
  dsimp only at h
  split at h
  · obtain ⟨found, closing, rfl, others, hothers, hfound⟩ := ih.args h
    refine ⟨arg :: found, closing, by simp, _, ?_, .more line hfirst hfound⟩
    rw [eq_cons_of_peek hpeek (by simp), hothers]
    simp
  · obtain ⟨rfl, rfl⟩ := Prod.mk.inj (Except.ok.inj h)
    refine ⟨[arg], line, by simp, first, ?_, .last hfirst⟩
    rw [eq_cons_of_peek hpeek (by simp)]
    rfl
  · exact absurd h unexpected_ne_ok

end

/-- The readers of expressions read expressions, whatever the fuel. -/
theorem exprsRecognized (fuel : Nat) : ExprsRecognized fuel := by
  induction fuel with
  | zero =>
    exact {
      binary := fun _ h => absurd h outOfFuel_ne_ok
      operators := fun _ _ _ h => absurd h outOfFuel_ne_ok
      unary := fun h => absurd h outOfFuel_ne_ok
      primary := fun h => absurd h outOfFuel_ne_ok
      args := fun h => absurd h outOfFuel_ne_ok }
  | succ fuel ih =>
    exact {
      binary := readBinary_recognized ih
      operators := readOperators_recognized ih
      unary := readUnary_recognized ih
      primary := readPrimary_recognized ih
      args := readArgs_recognized ih }

/-! ## Statements -/

section

variable {fuel : Nat} {items rest : List Item}

theorem readExpr_recognized {expr : Expr} (h : readExpr fuel items = .ok (expr, rest)) :
    Opens Expression items expr rest :=
  ((exprsRecognized fuel).binary (by decide) h).1

theorem readConstant_recognized {constant : Constant}
    (h : readConstant items = .ok (constant, rest)) : Opens ConstantTail items constant rest := by
  simp only [readConstant, bind_eq_ok_iff, Prod.exists] at h
  obtain ⟨name, afterName, hname, _, afterAssign, hassign, h⟩ := h
  obtain ⟨⟨minus, minusLine⟩, hminus, ⟨token, number⟩, hnumber, h⟩ := h
  obtain ⟨first, rfl⟩ := readName_ok hname
  obtain ⟨assign, rfl⟩ := expectSign_ok hassign
  dsimp only at h
  split at h
  · next value =>
    obtain ⟨⟨_, last⟩, hlast, hresult⟩ := bind_eq_ok_iff.mp h
    obtain ⟨rfl, rfl⟩ := Prod.mk.inj (Except.ok.inj hresult)
    obtain ⟨closing, hclosing⟩ := expectSign_ok hlast
    dsimp only at hnumber hclosing
    split_ifs at hnumber hclosing ⊢ with hsign
    · obtain rfl : minus = .punct .minus := hsign
      rw [eq_cons_of_peek hminus (by simp), eq_cons_of_peek hnumber (by simp), hclosing]
      exact ⟨_, rfl, .negative name value first assign minusLine number closing⟩
    · rw [eq_cons_of_peek hnumber (by simp), hclosing]
      exact ⟨_, rfl, .positive name value first assign number closing⟩
  · exact absurd h unexpected_ne_ok

theorem readCondition_recognized {cond : Expr} (h : readCondition fuel items = .ok (cond, rest)) :
    ∃ opening closing behind, items = .ok (sign .lparen opening) :: behind ∧
      Opens Expression behind cond (.ok (sign .rparen closing) :: rest) := by
  simp only [readCondition, bind_eq_ok_iff, Prod.exists] at h
  obtain ⟨_, behind, hopening, expr, last, hexpr, _, _, hclosing, hresult⟩ := h
  obtain ⟨rfl, rfl⟩ := Prod.mk.inj (Except.ok.inj hresult)
  obtain ⟨opening, rfl⟩ := expectSign_ok hopening
  obtain ⟨closing, rfl⟩ := expectSign_ok hclosing
  exact ⟨opening, closing, behind, rfl, readExpr_recognized hexpr⟩

/-- The line of a phrase is that of the next token. -/
theorem lineOf_eq_of_peek {lexemes : List Lexeme} {next : Lexeme}
    (hstarts : StartsWith StartsExpr lexemes) (h : peek (itemsOf lexemes ++ rest) = .ok next) :
    lineOf lexemes = next.line := by
  obtain ⟨first, others, rfl, -⟩ := hstarts
  obtain rfl : first = next := Except.ok.inj h
  rfl

theorem readSimple_recognized {stmt : Stmt} (h : readSimple fuel items = .ok (stmt, rest)) :
    Opens Simple items stmt rest := by
  simp only [readSimple, bind_eq_ok_iff] at h
  obtain ⟨⟨token, line⟩, hpeek, h⟩ := h
  split at h
  · next hvar =>
    obtain rfl : token = .keyword .varWord := hvar
    simp only [bind_eq_ok_iff, Prod.exists] at h
    obtain ⟨name, behind, hname, ⟨second, assign⟩, hsecond, h⟩ := h
    obtain ⟨place, hplace⟩ := readName_ok hname
    rw [eq_cons_of_peek hpeek (by simp), hplace]
    split at h
    · next hassign =>
      obtain rfl : second = .punct .assign := hassign
      simp only [bind_eq_ok_iff, Prod.exists] at h
      obtain ⟨init, last, hinit, hresult⟩ := h
      obtain ⟨rfl, rfl⟩ := Prod.mk.inj (Except.ok.inj hresult)
      obtain ⟨value, hvalue, hexpr⟩ := readExpr_recognized hinit
      rw [eq_cons_of_peek hsecond (by simp), hvalue]
      exact ⟨_, rfl, .varInit name line place assign hexpr⟩
    · obtain ⟨rfl, rfl⟩ := Prod.mk.inj (Except.ok.inj h)
      exact ⟨_, rfl, .var name line place⟩
  · simp only [bind_eq_ok_iff, Prod.exists] at h
    obtain ⟨expr, behind, hread, ⟨second, assign⟩, hsecond, h⟩ := h
    obtain ⟨lexemes, rfl, hexpr⟩ := readExpr_recognized hread
    obtain rfl : lineOf lexemes = line := lineOf_eq_of_peek hexpr.starts hpeek
    split at h
    · next hassign =>
      obtain rfl : second = .punct .assign := hassign
      split at h
      · simp only [bind_eq_ok_iff, Prod.exists] at h
        obtain ⟨value, last, hreadValue, hresult⟩ := h
        obtain ⟨rfl, rfl⟩ := Prod.mk.inj (Except.ok.inj hresult)
        obtain ⟨valueLexemes, hlast, hvalue⟩ := readExpr_recognized hreadValue
        rw [eq_cons_of_peek hsecond (by simp), hlast]
        exact ⟨_, by simp, .assign assign (hexpr.target rfl) hvalue⟩
      · exact absurd h (by simp)
    · obtain ⟨rfl, rfl⟩ := Prod.mk.inj (Except.ok.inj h)
      exact ⟨lexemes, rfl, .eval hexpr⟩

theorem readUnless_recognized {α : Type} {stop : Token} {Phrase : List Lexeme → α → Prop}
    {read : List Item → Except SyntaxError (Parsed α)}
    (hread : ∀ {items rest : List Item} {tree : α}, read items = .ok (tree, rest) →
      Opens Phrase items tree rest)
    {tree : Option α} (h : readUnless stop read items = .ok (tree, rest)) :
    Opens (Optional Phrase) items tree rest := by
  simp only [readUnless, bind_eq_ok_iff] at h
  obtain ⟨next, -, h⟩ := h
  split at h
  · obtain ⟨rfl, rfl⟩ := Prod.mk.inj (Except.ok.inj h)
    exact ⟨[], rfl, .none⟩
  · simp only [bind_eq_ok_iff, Prod.exists] at h
    obtain ⟨value, last, hvalue, hresult⟩ := h
    obtain ⟨rfl, rfl⟩ := Prod.mk.inj (Except.ok.inj hresult)
    obtain ⟨lexemes, rfl, hphrase⟩ := hread hvalue
    exact ⟨lexemes, rfl, .some hphrase⟩

theorem readForHead_recognized {head : ForHead} (h : readForHead fuel items = .ok (head, rest)) :
    Opens Head items head rest := by
  simp only [readForHead, bind_eq_ok_iff, Prod.exists] at h
  obtain ⟨_, _, hopening, init, _, hreadInit, _, _, hfirst, cond, _, hreadCond, _, _, hsecond,
    step, _, hreadStep, _, _, hclosing, hresult⟩ := h
  obtain ⟨rfl, rfl⟩ := Prod.mk.inj (Except.ok.inj hresult)
  obtain ⟨opening, rfl⟩ := expectSign_ok hopening
  obtain ⟨start, rfl, hinit⟩ := readUnless_recognized readSimple_recognized hreadInit
  obtain ⟨first, rfl⟩ := expectSign_ok hfirst
  obtain ⟨test, rfl, hcond⟩ := readUnless_recognized readExpr_recognized hreadCond
  obtain ⟨second, rfl⟩ := expectSign_ok hsecond
  obtain ⟨after, rfl, hstep⟩ := readUnless_recognized readSimple_recognized hreadStep
  obtain ⟨closing, rfl⟩ := expectSign_ok hclosing
  exact ⟨_, by simp, .mk opening first second closing hinit hcond hstep⟩

theorem closeStmt_ok {stmt result : Stmt} (h : closeStmt stmt items = .ok (result, rest)) :
    result = stmt ∧ ∃ last, items = .ok (sign .semicolon last) :: rest := by
  simp only [closeStmt, bind_eq_ok_iff, Prod.exists] at h
  obtain ⟨_, _, hlast, hresult⟩ := h
  obtain ⟨rfl, rfl⟩ := Prod.mk.inj (Except.ok.inj hresult)
  exact ⟨rfl, expectSign_ok hlast⟩

theorem Simple.not_endsOpen {lexemes : List Lexeme} {stmt : Stmt} (h : Simple lexemes stmt) :
    ¬ stmt.EndsOpen := by
  cases h <;> exact id

end

/-- What the readers of statements take, with a given fuel. -/
structure StmtsRecognized (fuel : Nat) : Prop where
  stmts : ∀ {items rest : List Item} {taken body : List Stmt},
    readStmts fuel taken items = .ok (body, rest) →
    ∃ found closing, body = taken.reverse ++ found ∧
      Opens Body items found (.ok (sign .rbrace closing) :: rest)
  stmt : ∀ {items rest : List Item} {stmt : Stmt}, readStmt fuel items = .ok (stmt, rest) →
    Opens Statement items stmt rest ∧ (stmt.EndsOpen → NextIs (· ≠ .keyword .elseWord) rest)

section

variable {fuel : Nat} {items rest : List Item}

theorem readStmts_recognized (ih : StmtsRecognized fuel) {taken body : List Stmt}
    (h : readStmts (fuel + 1) taken items = .ok (body, rest)) :
    ∃ found closing, body = taken.reverse ++ found ∧
      Opens Body items found (.ok (sign .rbrace closing) :: rest) := by
  simp only [readStmts, bind_eq_ok_iff] at h
  obtain ⟨⟨token, line⟩, hpeek, h⟩ := h
  dsimp only at h
  split at h
  · obtain ⟨rfl, rfl⟩ := Prod.mk.inj (Except.ok.inj h)
    exact ⟨[], line, by simp, [], eq_cons_of_peek hpeek (by simp), .nil⟩
  · exact absurd h (by simp)
  · simp only [bind_eq_ok_iff, Prod.exists] at h
    obtain ⟨stmt, behind, hstmt, hrest⟩ := h
    obtain ⟨⟨first, rfl, hfirst⟩, -⟩ := ih.stmt hstmt
    obtain ⟨found, closing, rfl, others, rfl, hothers⟩ := ih.stmts hrest
    exact ⟨stmt :: found, closing, by simp, first ++ others, by simp, .cons hfirst hothers⟩

/-- Reading an `if`, behind its keyword. -/
theorem readIf_recognized (ih : StmtsRecognized fuel) {line : Nat} {stmt : Stmt}
    (h : (do
      let (cond, items) ← readCondition fuel items
      let (yes, items) ← readStmt fuel items
      if (← peek items).token = Token.keyword .elseWord then
        let (no, items) ← readStmt fuel items.tail
        .ok (Stmt.ifElse line cond yes (some no), items)
      else .ok (Stmt.ifElse line cond yes none, items)) = Except.ok (stmt, rest)) :
    Opens Statement (.ok (word .ifWord line) :: items) stmt rest ∧
      (stmt.EndsOpen → NextIs (· ≠ .keyword .elseWord) rest) := by
  simp only [bind_eq_ok_iff, Prod.exists] at h
  obtain ⟨cond, _, hreadCond, yes, behind, hreadYes, ⟨token, middle⟩, hpeek, h⟩ := h
  obtain ⟨opening, closing, _, rfl, test, rfl, hcond⟩ := readCondition_recognized hreadCond
  obtain ⟨⟨yesLexemes, rfl, hyes⟩, hopen⟩ := ih.stmt hreadYes
  split at h
  · next helse =>
    obtain rfl : token = .keyword .elseWord := helse
    simp only [bind_eq_ok_iff, Prod.exists] at h
    obtain ⟨no, _, hreadNo, hresult⟩ := h
    obtain ⟨rfl, rfl⟩ := Prod.mk.inj (Except.ok.inj hresult)
    obtain ⟨⟨noLexemes, hbehind, hno⟩, hend⟩ := ih.stmt hreadNo
    -- an `if` inside of the first branch would have taken the `else`
    have hclosed : ¬ yes.EndsOpen := by
      intro hyesOpen
      obtain ⟨next, hnext, hne⟩ := hopen hyesOpen
      obtain rfl := Except.ok.inj (hnext.symm.trans hpeek)
      exact hne rfl
    rw [eq_cons_of_peek hpeek (by simp), hbehind]
    exact ⟨⟨_, by simp, .ifElse line opening closing middle hcond hyes hclosed hno⟩, hend⟩
  · next helse =>
    obtain ⟨rfl, rfl⟩ := Prod.mk.inj (Except.ok.inj h)
    exact ⟨⟨_, by simp, .ifThen line opening closing hcond hyes⟩, fun _ => ⟨_, hpeek, helse⟩⟩

theorem readStmt_recognized (ih : StmtsRecognized fuel) {stmt : Stmt}
    (h : readStmt (fuel + 1) items = .ok (stmt, rest)) :
    Opens Statement items stmt rest ∧
      (stmt.EndsOpen → NextIs (· ≠ .keyword .elseWord) rest) := by
  simp only [readStmt, bind_eq_ok_iff] at h
  obtain ⟨⟨token, line⟩, hpeek, h⟩ := h
  dsimp only at h
  split at h
  · -- a block
    simp only [bind_eq_ok_iff, Prod.exists] at h
    obtain ⟨body, _, hbody, hresult⟩ := h
    obtain ⟨rfl, rfl⟩ := Prod.mk.inj (Except.ok.inj hresult)
    obtain ⟨found, closing, rfl, inner, hinner, hfound⟩ := ih.stmts hbody
    rw [eq_cons_of_peek hpeek (by simp), hinner]
    exact ⟨⟨_, by simp, .block line closing hfound⟩, False.elim⟩
  · obtain ⟨rfl, rfl⟩ := Prod.mk.inj (Except.ok.inj h)
    rw [eq_cons_of_peek hpeek (by simp)]
    exact ⟨⟨_, rfl, .empty line⟩, False.elim⟩
  · -- a constant
    simp only [bind_eq_ok_iff, Prod.exists] at h
    obtain ⟨constant, _, hread, hresult⟩ := h
    obtain ⟨rfl, rfl⟩ := Prod.mk.inj (Except.ok.inj hresult)
    obtain ⟨lexemes, hlexemes, hconstant⟩ := readConstant_recognized hread
    rw [eq_cons_of_peek hpeek (by simp), hlexemes]
    exact ⟨⟨_, rfl, .const line hconstant⟩, False.elim⟩
  · rw [eq_cons_of_peek hpeek (by simp)]
    exact readIf_recognized ih h
  · -- a `while`
    simp only [bind_eq_ok_iff, Prod.exists] at h
    obtain ⟨cond, _, hreadCond, body, _, hreadBody, hresult⟩ := h
    obtain ⟨rfl, rfl⟩ := Prod.mk.inj (Except.ok.inj hresult)
    obtain ⟨opening, closing, _, hopening, test, rfl, hcond⟩ := readCondition_recognized hreadCond
    obtain ⟨⟨lexemes, rfl, hbody⟩, hend⟩ := ih.stmt hreadBody
    rw [eq_cons_of_peek hpeek (by simp), hopening]
    exact ⟨⟨_, by simp, .whileLoop line opening closing hcond hbody⟩, hend⟩
  · -- a `for`
    simp only [bind_eq_ok_iff, Prod.exists] at h
    obtain ⟨head, _, hreadHead, body, _, hreadBody, hresult⟩ := h
    obtain ⟨rfl, rfl⟩ := Prod.mk.inj (Except.ok.inj hresult)
    obtain ⟨front, htail, hhead⟩ := readForHead_recognized hreadHead
    obtain ⟨⟨lexemes, rfl, hbody⟩, hend⟩ := ih.stmt hreadBody
    rw [eq_cons_of_peek hpeek (by simp), htail]
    exact ⟨⟨_, by simp, .forLoop line hhead hbody⟩, hend⟩
  · obtain ⟨rfl, last, hlast⟩ := closeStmt_ok h
    rw [eq_cons_of_peek hpeek (by simp), hlast]
    exact ⟨⟨_, rfl, .breakLoop line last⟩, False.elim⟩
  · obtain ⟨rfl, last, hlast⟩ := closeStmt_ok h
    rw [eq_cons_of_peek hpeek (by simp), hlast]
    exact ⟨⟨_, rfl, .continueLoop line last⟩, False.elim⟩
  · obtain ⟨rfl, last, hlast⟩ := closeStmt_ok h
    rw [eq_cons_of_peek hpeek (by simp), hlast]
    exact ⟨⟨_, rfl, .leave line last⟩, False.elim⟩
  · exact absurd h (by simp)
  · exact absurd h (by simp)
  · simp only [bind_eq_ok_iff, Prod.exists] at h
    obtain ⟨found, _, hfound, hclosing⟩ := h
    obtain ⟨rfl, last, rfl⟩ := closeStmt_ok hclosing
    obtain ⟨lexemes, rfl, hsimple⟩ := readSimple_recognized hfound
    exact ⟨⟨_, by simp, .simple last hsimple⟩, fun hopen => absurd hopen hsimple.not_endsOpen⟩

end

/-- The readers of statements read statements, whatever the fuel. -/
theorem stmtsRecognized (fuel : Nat) : StmtsRecognized fuel := by
  induction fuel with
  | zero =>
    exact {
      stmts := fun h => absurd h outOfFuel_ne_ok
      stmt := fun h => absurd h outOfFuel_ne_ok }
  | succ fuel ih =>
    exact {
      stmts := readStmts_recognized ih
      stmt := readStmt_recognized ih }

/-! ## Scripts -/

section

variable {fuel : Nat} {items rest : List Item}

theorem readRoutine_recognized {routine : Routine}
    (h : readRoutine fuel items = .ok (routine, rest)) : Opens Function items routine rest := by
  simp only [readRoutine, readBlock, bind_eq_ok_iff, Prod.exists] at h
  obtain ⟨⟨token, line⟩, hpeek, _, _, hword, name, _, hname, _, _, hopening, _, _, hclosing,
    body, _, hbody, hresult⟩ := h
  obtain ⟨⟨brace, first⟩, hbrace, _, _, hfirst, found, _, hfound, hblock⟩ := hbody
  obtain ⟨rfl, rfl⟩ := Prod.mk.inj (Except.ok.inj hblock)
  obtain ⟨rfl, rfl⟩ := Prod.mk.inj (Except.ok.inj hresult)
  obtain ⟨place, rfl⟩ := readName_ok hname
  obtain ⟨opening, rfl⟩ := expectSign_ok hopening
  obtain ⟨closing, rfl⟩ := expect_ok (by simp) hclosing
  obtain ⟨brace, rfl⟩ := expectSign_ok hfirst
  obtain ⟨stmts, last, rfl, inner, rfl, hinner⟩ := (stmtsRecognized fuel).stmts hfound
  obtain rfl : brace = first := congrArg Lexeme.line (Except.ok.inj hbrace)
  obtain ⟨second, hsecond⟩ := expect_ok (by simp) hword
  have htail (kind : RoutineKind) : RoutineTail kind line _ _ :=
    .mk name place opening closing brace last hinner
  split_ifs at hsecond ⊢ with hinline
  · obtain rfl : token = .keyword .inlineWord := hinline
    rw [eq_cons_of_peek hpeek (by simp), hsecond]
    exact ⟨_, by simp, .inlined line second (htail .inlined)⟩
  · subst hsecond
    obtain ⟨rfl, rfl⟩ := Lexeme.mk.inj (Except.ok.inj hpeek)
    exact ⟨_, by simp, .normal second (htail .normal)⟩

/-- The last item is the end of the text or a fault. -/
def Ended (items : List Item) : Prop :=
  ∃ last, items.getLast? = some last ∧ ∀ lexeme, last = .ok lexeme → lexeme.token = .eof

/-- A phrase whose last token is not the end leaves the end of the text unread. -/
theorem Ended.of_append (front : List Lexeme) {last : Lexeme} (hne : last.token ≠ .eof)
    (h : Ended (itemsOf (front ++ [last]) ++ rest)) : Ended rest := by
  obtain ⟨item, hitem, heof⟩ := h
  cases rest with
  | nil =>
    obtain rfl : .ok last = item := by simpa using hitem
    exact absurd (heof last rfl) hne
  | cons next others =>
    rw [List.getLast?_append_of_ne_nil _ (List.cons_ne_nil next others)] at hitem
    exact ⟨item, hitem, heof⟩

theorem ConstantTail.exists_last {lexemes : List Lexeme} {constant : Constant}
    (h : ConstantTail lexemes constant) :
    ∃ front line, lexemes = front ++ [sign .semicolon line] := by
  cases h with
  | positive name value first assign number last => exact ⟨[_, _, _], last, rfl⟩
  | negative name value first assign minus number last => exact ⟨[_, _, _, _], last, rfl⟩

theorem Function.exists_last {lexemes : List Lexeme} {routine : Routine}
    (h : Function lexemes routine) : ∃ front line, lexemes = front ++ [sign .rbrace line] := by
  cases h with
  | normal line h =>
    cases h with
    | mk name place opening closing first last h =>
      exact ⟨_ :: _ :: _ :: _ :: _ :: _, last, rfl⟩
  | inlined line second h =>
    cases h with
    | mk name place opening closing first last h =>
      exact ⟨_ :: _ :: _ :: _ :: _ :: _ :: _, last, rfl⟩

/-- What is read of a script stands behind what was read before it, and goes up to the end of the
text. -/
theorem readScript_recognized {constants : List Constant} {routines : List Routine}
    {script : Declarations} (hended : Ended items)
    (h : readScript fuel constants routines items = .ok script) :
    ∃ found rest, Opens Whole items found rest ∧
      script = ⟨constants.reverse ++ found.constants, routines.reverse ++ found.routines⟩ := by
  induction fuel generalizing constants routines items with
  | zero =>
    rw [readScript] at h
    obtain ⟨result, hresult, -⟩ := map_eq_ok_iff.mp h
    exact absurd hresult outOfFuel_ne_ok
  | succ fuel ih =>
    simp only [readScript, bind_eq_ok_iff] at h
    obtain ⟨⟨token, line⟩, hpeek, h⟩ := h
    dsimp only at h
    -- a function, with or without the word before it
    have hfunction : (∃ routine behind, readRoutine fuel items = .ok (routine, behind) ∧
        readScript fuel constants (routine :: routines) behind = .ok script) →
        ∃ found rest, Opens Whole items found rest ∧
          script = ⟨constants.reverse ++ found.constants, routines.reverse ++ found.routines⟩ := by
      rintro ⟨routine, behind, hread, hscript⟩
      obtain ⟨lexemes, rfl, hroutine⟩ := readRoutine_recognized hread
      obtain ⟨front, last, rfl⟩ := hroutine.exists_last
      obtain ⟨found, rest, ⟨others, rfl, hfound⟩, rfl⟩ := ih (hended.of_append _ (by simp)) hscript
      exact ⟨_, rest, ⟨_, by simp, .routine hroutine hfound⟩, by simp⟩
    split at h
    · obtain rfl := Except.ok.inj h
      cases items with
      | nil => exact absurd hended (by simp [Ended])
      | cons item rest =>
        obtain rfl : item = .ok ⟨.eof, line⟩ := hpeek
        exact ⟨{}, rest, ⟨_, rfl, .eof line⟩, by simp⟩
    · simp only [bind_eq_ok_iff, Prod.exists] at h
      obtain ⟨constant, behind, hread, hscript⟩ := h
      obtain ⟨lexemes, hlexemes, hconstant⟩ := readConstant_recognized hread
      obtain ⟨front, last, rfl⟩ := hconstant.exists_last
      have hitems := eq_cons_of_peek hpeek (by simp)
      rw [hlexemes] at hitems
      rw [hitems] at hended
      have hbehind : Ended behind :=
        Ended.of_append (word .constWord line :: front) (by simp) hended
      obtain ⟨found, rest, ⟨others, rfl, hfound⟩, rfl⟩ := ih hbehind hscript
      exact ⟨_, rest, ⟨_, by simpa using hitems, .const line hconstant hfound⟩, by simp⟩
    · simp only [bind_eq_ok_iff, Prod.exists] at h
      exact hfunction h
    · simp only [bind_eq_ok_iff, Prod.exists] at h
      exact hfunction h
    · exact absurd h (by simp)

end

end Grammar

end RoomForge.Script
