import RoomForge.Proofs.Acceptance

set_option autoImplicit false

/-! # Parsing is the grammar

Two facts complete the two halves: the fuel that parsing starts with is never used up, because every
call of a reader either takes a token or hands on to a reader of a tighter kind; and the items of a
text end with its end or with a fault and hold no end before that. So a text is parsed to a script
if and only if it has no malformed token and its tokens stand for the script:
`parse_follows_grammar` (specification, section 4.1).
-/

namespace RoomForge.Script

/-- The fault of running out of fuel. -/
def TooDeep (e : SyntaxError) : Prop :=
  e.fault = .tooDeep

/-- No item is the fault of running out of fuel. -/
def Shallow (items : List Item) : Prop :=
  ∀ item ∈ items, Avoids TooDeep item

namespace Shallow

variable {items rest : List Item}

theorem peek (h : Shallow items) : Avoids TooDeep (peek items) := by
  cases items with
  | nil => exact .ok
  | cons item rest => exact h item List.mem_cons_self

theorem tail (h : Shallow items) : Shallow items.tail :=
  fun item hitem => h item (List.mem_of_mem_tail hitem)

theorem of_append {front : List Item} (h : Shallow (front ++ rest)) : Shallow rest :=
  fun item hitem => h item (List.mem_append_right front hitem)

end Shallow

theorem avoids_unexpected {α : Type} {wanted : Wanted} {next : Lexeme} :
    Avoids TooDeep (unexpected (α := α) wanted next) :=
  .error (by simp [TooDeep])

theorem avoids_expect {token : Token} {wanted : Wanted} {items : List Item} (h : Shallow items) :
    Avoids TooDeep (expect token wanted items) := by
  refine h.peek.bind fun next _ => ?_
  split
  · exact .ok
  · exact avoids_unexpected

theorem avoids_expectSign {punct : Punct} {items : List Item} (h : Shallow items) :
    Avoids TooDeep (expectSign punct items) :=
  avoids_expect h

theorem avoids_readName {wanted : Wanted} {items : List Item} (h : Shallow items) :
    Avoids TooDeep (readName wanted items) := by
  refine h.peek.bind fun next _ => ?_
  split
  · exact .ok
  · exact avoids_unexpected

/-- What is left behind a phrase. -/
theorem Opens.shallow {α : Type} {Phrase : List Lexeme → α → Prop} {items rest : List Item}
    {tree : α} (h : Opens Phrase items tree rest) (hitems : Shallow items) : Shallow rest := by
  obtain ⟨lexemes, rfl, -⟩ := h
  exact hitems.of_append

theorem Opens.length_lt {α : Type} {Phrase : List Lexeme → α → Prop} {items rest : List Item}
    {tree : α} {property : Token → Prop} (h : Opens Phrase items tree rest)
    (hstarts : ∀ {lexemes : List Lexeme}, Phrase lexemes tree →
      Grammar.StartsWith property lexemes) :
    rest.length < items.length := by
  obtain ⟨lexemes, rfl, hphrase⟩ := h
  have hpos := (hstarts hphrase).length_pos
  rw [List.length_append, length_itemsOf]
  omega

namespace Grammar

theorem length_tail_of_peek {items : List Item} {next : Lexeme} (h : peek items = .ok next)
    (hne : next.token ≠ .eof) : items.tail.length + 1 = items.length := by
  rw [eq_cons_of_peek h hne]
  rfl

/-! ## Fuel for expressions -/

/-- How much fuel the readers of expressions need for the items they are given. -/
structure ExprsFuelled (fuel : Nat) : Prop where
  binary : ∀ {level : Nat} {items : List Item}, level ≤ operandLevel → Shallow items →
    4 * items.length + 3 ≤ fuel → Avoids TooDeep (readBinary fuel level items)
  operators : ∀ {level : Nat} {left : Expr} {items : List Item}, Shallow items →
    4 * items.length + 1 ≤ fuel → Avoids TooDeep (readOperators fuel level left items)
  unary : ∀ {items : List Item}, Shallow items → 4 * items.length + 2 ≤ fuel →
    Avoids TooDeep (readUnary fuel items)
  primary : ∀ {items : List Item}, Shallow items → 4 * items.length + 1 ≤ fuel →
    Avoids TooDeep (readPrimary fuel items)
  args : ∀ {taken : List Expr} {items : List Item}, Shallow items →
    4 * items.length + 4 ≤ fuel → Avoids TooDeep (readArgs fuel taken items)

section

variable {fuel : Nat} {items : List Item}

theorem readBinary_fuelled (ih : ExprsFuelled fuel) {level : Nat} (h : Shallow items)
    (hfuel : 4 * items.length + 3 ≤ fuel + 1) :
    Avoids TooDeep (readBinary (fuel + 1) level items) := by
  rw [readBinary]
  refine (ih.unary h (by omega)).bind fun left hleft => ?_
  have hopens := (exprsRecognized fuel).unary hleft
  have hless := hopens.length_lt Unary.starts
  exact ih.operators (hopens.shallow h) (by omega)

theorem readOperators_fuelled (ih : ExprsFuelled fuel) {level : Nat} {left : Expr}
    (h : Shallow items) (hfuel : 4 * items.length + 1 ≤ fuel + 1) :
    Avoids TooDeep (readOperators (fuel + 1) level left items) := by
  rw [readOperators]
  refine h.peek.bind fun next hpeek => ?_
  split
  · exact .ok
  · next op hop =>
    split
    · exact .ok
    · have htail := length_tail_of_peek hpeek (by
        obtain ⟨punct, hpunct, -⟩ := exists_sign_of_ofToken? hop
        simp [hpunct])
      refine (ih.binary (level_lt_operandLevel op) h.tail (by omega)).bind fun right hright => ?_
      have hopens := ((exprsRecognized fuel).binary (level_lt_operandLevel op) hright).1
      have hless := hopens.length_lt Binary.starts
      exact ih.operators (hopens.shallow h.tail) (by omega)

theorem readUnary_fuelled (ih : ExprsFuelled fuel) (h : Shallow items)
    (hfuel : 4 * items.length + 2 ≤ fuel + 1) : Avoids TooDeep (readUnary (fuel + 1) items) := by
  rw [readUnary]
  refine h.peek.bind fun next hpeek => ?_
  split
  · exact ih.primary h (by omega)
  · next op hop =>
    have htail := length_tail_of_peek hpeek (by
      rcases sign_of_unOp hop with ⟨hsign, -⟩ | ⟨hsign, -⟩ <;> simp [hsign])
    refine h.tail.peek.bind fun second _ => ?_
    split
    · exact .ok
    · exact (ih.unary h.tail (by omega)).bind fun operand _ => .ok

theorem readPrimary_fuelled (ih : ExprsFuelled fuel) (h : Shallow items)
    (hfuel : 4 * items.length + 1 ≤ fuel + 1) : Avoids TooDeep (readPrimary (fuel + 1) items) := by
  rw [readPrimary]
  refine h.peek.bind fun next hpeek => ?_
  split
  · exact .ok
  · exact .ok
  · next name hname =>
    have htail := length_tail_of_peek hpeek (by simp [hname])
    refine h.tail.peek.bind fun second hsecond => ?_
    split
    · next hparen =>
      have htail' := length_tail_of_peek hsecond (by simp [hparen])
      refine h.tail.tail.peek.bind fun third _ => ?_
      split
      · exact .ok
      · exact (ih.args h.tail.tail (by omega)).bind fun args _ => .ok
    · exact .ok
  · next hparen =>
    have htail := length_tail_of_peek hpeek (by simp [hparen])
    refine (ih.binary (by decide) h.tail (by omega)).bind fun inner hinner => ?_
    have hopens := ((exprsRecognized fuel).binary (by decide) hinner).1
    exact (avoids_expectSign (hopens.shallow h.tail)).bind fun _ _ => .ok
  · exact avoids_unexpected

theorem readArgs_fuelled (ih : ExprsFuelled fuel) {taken : List Expr} (h : Shallow items)
    (hfuel : 4 * items.length + 4 ≤ fuel + 1) :
    Avoids TooDeep (readArgs (fuel + 1) taken items) := by
  rw [readArgs]
  refine (ih.binary (by decide) h (by omega)).bind fun arg harg => ?_
  have hopens := ((exprsRecognized fuel).binary (by decide) harg).1
  have hrest := hopens.shallow h
  have hless := hopens.length_lt Binary.starts
  refine hrest.peek.bind fun next hpeek => ?_
  split
  · next hcomma =>
    have htail := length_tail_of_peek hpeek (by simp [hcomma])
    exact ih.args hrest.tail (by omega)
  · exact .ok
  · exact avoids_unexpected

end

/-- With fuel for its items, no reader of expressions runs out of it. -/
theorem exprsFuelled (fuel : Nat) : ExprsFuelled fuel := by
  induction fuel with
  | zero =>
    constructor <;> intros <;> omega
  | succ fuel ih =>
    exact {
      binary := fun _ => readBinary_fuelled ih
      operators := readOperators_fuelled ih
      unary := readUnary_fuelled ih
      primary := readPrimary_fuelled ih
      args := readArgs_fuelled ih }

/-! ## Fuel for statements -/

/-- At most `count` items are left, and none of them is out of fuel. -/
structure Within (count : Nat) (items : List Item) : Prop where
  shallow : Shallow items
  length_le : items.length ≤ count

namespace Within

variable {count : Nat} {items rest : List Item}

theorem tail (h : Within count items) : Within count items.tail :=
  ⟨h.shallow.tail, by rw [List.length_tail]; exact Nat.le_trans (Nat.sub_le _ _) h.length_le⟩

theorem tailIf {p : Prop} [Decidable p] (h : Within count items) :
    Within count (if p then items.tail else items) := by
  split
  · exact h.tail
  · exact h

theorem expect {token : Token} {wanted : Wanted} {u : Unit} (h : Within count items)
    (hread : expect token wanted items = .ok (u, rest)) : Within count rest := by
  obtain ⟨next, -, hrest⟩ := bind_eq_ok_iff.mp hread
  split at hrest
  · obtain ⟨-, rfl⟩ := Prod.mk.inj (Except.ok.inj hrest)
    exact h.tail
  · exact absurd hrest unexpected_ne_ok

theorem name {wanted : Wanted} {name : String} (h : Within count items)
    (hread : readName wanted items = .ok (name, rest)) : Within count rest := by
  obtain ⟨line, rfl⟩ := readName_ok hread
  exact h.tail

theorem opens {α : Type} {Phrase : List Lexeme → α → Prop} {tree : α} (h : Within count items)
    (hopens : Opens Phrase items tree rest) : Within count rest := by
  refine ⟨hopens.shallow h.shallow, Nat.le_trans ?_ h.length_le⟩
  obtain ⟨lexemes, rfl, -⟩ := hopens
  rw [List.length_append]
  exact Nat.le_add_left ..

/-- A token other than the end leaves one item fewer. -/
theorem behind {next : Lexeme} (h : Within count items) (hpeek : peek items = .ok next)
    (hne : next.token ≠ .eof) : ∃ n, count = n + 1 ∧ Within n items.tail := by
  have htail := length_tail_of_peek hpeek hne
  have hcount := h.length_le
  exact ⟨count - 1, by omega, h.shallow.tail, by omega⟩

/-- A phrase with at least one token leaves one item fewer. -/
theorem opensLess {α : Type} {Phrase : List Lexeme → α → Prop} {tree : α}
    {property : Token → Prop} (h : Within count items) (hopens : Opens Phrase items tree rest)
    (hstarts : ∀ {lexemes : List Lexeme}, Phrase lexemes tree → StartsWith property lexemes) :
    ∃ n, count = n + 1 ∧ Within n rest := by
  have hless := hopens.length_lt hstarts
  have hcount := h.length_le
  exact ⟨count - 1, by omega, hopens.shallow h.shallow, by omega⟩

theorem condition {fuel : Nat} {cond : Expr} (h : Within count items)
    (hread : readCondition fuel items = .ok (cond, rest)) : Within count rest := by
  obtain ⟨opening, closing, behind, rfl, hopens⟩ := readCondition_recognized hread
  exact (h.tail.opens hopens).tail

end Within

section

variable {fuel count : Nat} {items : List Item}

theorem readExpr_fuelled (h : Within count items) (hfuel : 4 * count + 3 ≤ fuel) :
    Avoids TooDeep (readExpr fuel items) :=
  (exprsFuelled fuel).binary (by decide) h.shallow (by have := h.length_le; omega)

theorem readConstant_fuelled (h : Within count items) : Avoids TooDeep (readConstant items) := by
  refine (avoids_readName h.shallow).bind fun _ hname => ?_
  replace h := h.name hname
  refine (avoids_expectSign h.shallow).bind fun _ hassign => ?_
  replace h := h.expect hassign
  refine h.shallow.peek.bind fun _ _ => ?_
  refine h.tailIf.shallow.peek.bind fun _ _ => ?_
  split
  · exact (avoids_expectSign h.tailIf.tail.shallow).bind fun _ _ => .ok
  · exact avoids_unexpected

theorem readCondition_fuelled (h : Within count items) (hfuel : 4 * count + 3 ≤ fuel) :
    Avoids TooDeep (readCondition fuel items) := by
  refine (avoids_expectSign h.shallow).bind fun _ hopening => ?_
  replace h := h.expect hopening
  refine (readExpr_fuelled h hfuel).bind fun _ hcond => ?_
  replace h := h.opens (readExpr_recognized hcond)
  exact (avoids_expectSign h.shallow).bind fun _ _ => .ok

theorem readSimple_fuelled (h : Within count items) (hfuel : 4 * count + 3 ≤ fuel) :
    Avoids TooDeep (readSimple fuel items) := by
  refine h.shallow.peek.bind fun first _ => ?_
  split
  · refine (avoids_readName h.tail.shallow).bind fun _ hname => ?_
    replace h := h.tail.name hname
    refine h.shallow.peek.bind fun _ _ => ?_
    split
    · exact (readExpr_fuelled h.tail hfuel).bind fun _ _ => .ok
    · exact .ok
  · refine (readExpr_fuelled h hfuel).bind fun target htarget => ?_
    replace h := h.opens (readExpr_recognized htarget)
    refine h.shallow.peek.bind fun _ _ => ?_
    split
    · split
      · exact (readExpr_fuelled h.tail hfuel).bind fun _ _ => .ok
      · exact .error (by simp [TooDeep])
    · exact .ok

theorem readUnless_fuelled {α : Type} {stop : Token}
    {read : List Item → Except SyntaxError (Parsed α)} (h : Within count items)
    (hread : Avoids TooDeep (read items)) : Avoids TooDeep (readUnless stop read items) := by
  refine h.shallow.peek.bind fun _ _ => ?_
  split
  · exact .ok
  · exact hread.bind fun _ _ => .ok

theorem readForHead_fuelled (h : Within count items) (hfuel : 4 * count + 3 ≤ fuel) :
    Avoids TooDeep (readForHead fuel items) := by
  refine (avoids_expectSign h.shallow).bind fun _ hopening => ?_
  replace h := h.expect hopening
  refine (readUnless_fuelled h (readSimple_fuelled h hfuel)).bind fun _ hinit => ?_
  replace h := h.opens (readUnless_recognized readSimple_recognized hinit)
  refine (avoids_expectSign h.shallow).bind fun _ hfirst => ?_
  replace h := h.expect hfirst
  refine (readUnless_fuelled h (readExpr_fuelled h hfuel)).bind fun _ hcond => ?_
  replace h := h.opens (readUnless_recognized readExpr_recognized hcond)
  refine (avoids_expectSign h.shallow).bind fun _ hsecond => ?_
  replace h := h.expect hsecond
  refine (readUnless_fuelled h (readSimple_fuelled h hfuel)).bind fun _ hstep => ?_
  replace h := h.opens (readUnless_recognized readSimple_recognized hstep)
  exact (avoids_expectSign h.shallow).bind fun _ _ => .ok

theorem closeStmt_fuelled {stmt : Stmt} (h : Within count items) :
    Avoids TooDeep (closeStmt stmt items) :=
  (avoids_expectSign h.shallow).bind fun _ _ => .ok

end

/-- How much fuel the readers of statements need for the items they are given. -/
structure StmtsFuelled (fuel : Nat) : Prop where
  stmts : ∀ {count : Nat} {taken : List Stmt} {items : List Item}, Within count items →
    4 * count + 5 ≤ fuel → Avoids TooDeep (readStmts fuel taken items)
  stmt : ∀ {count : Nat} {items : List Item}, Within count items → 4 * count + 4 ≤ fuel →
    Avoids TooDeep (readStmt fuel items)

section

variable {fuel count : Nat} {items : List Item}

theorem readStmts_fuelled (ih : StmtsFuelled fuel) {taken : List Stmt} (h : Within count items)
    (hfuel : 4 * count + 5 ≤ fuel + 1) : Avoids TooDeep (readStmts (fuel + 1) taken items) := by
  rw [readStmts]
  refine h.shallow.peek.bind fun next _ => ?_
  split
  · exact .ok
  · exact .error (by simp [TooDeep])
  · refine (ih.stmt h (by omega)).bind fun stmt hstmt => ?_
    obtain ⟨n, rfl, hn⟩ := h.opensLess ((stmtsRecognized fuel).stmt hstmt).1 Statement.starts
    exact ih.stmts hn (by omega)

theorem readStmt_fuelled (ih : StmtsFuelled fuel) (h : Within count items)
    (hfuel : 4 * count + 4 ≤ fuel + 1) : Avoids TooDeep (readStmt (fuel + 1) items) := by
  rw [readStmt]
  refine h.shallow.peek.bind fun first hpeek => ?_
  split
  · next htoken =>
    obtain ⟨n, rfl, hn⟩ := h.behind hpeek (by simp [htoken])
    exact (ih.stmts hn (by omega)).bind fun _ _ => .ok
  · exact .ok
  · exact (readConstant_fuelled h.tail).bind fun _ _ => .ok
  · next htoken =>
    obtain ⟨n, rfl, hn⟩ := h.behind hpeek (by simp [htoken])
    refine (readCondition_fuelled hn (by omega)).bind fun _ hcond => ?_
    replace hn := hn.condition hcond
    refine (ih.stmt hn (by omega)).bind fun _ hyes => ?_
    replace hn := hn.opens ((stmtsRecognized fuel).stmt hyes).1
    refine hn.shallow.peek.bind fun _ _ => ?_
    split
    · exact (ih.stmt hn.tail (by omega)).bind fun _ _ => .ok
    · exact .ok
  · next htoken =>
    obtain ⟨n, rfl, hn⟩ := h.behind hpeek (by simp [htoken])
    refine (readCondition_fuelled hn (by omega)).bind fun _ hcond => ?_
    exact (ih.stmt (hn.condition hcond) (by omega)).bind fun _ _ => .ok
  · next htoken =>
    obtain ⟨n, rfl, hn⟩ := h.behind hpeek (by simp [htoken])
    refine (readForHead_fuelled hn (by omega)).bind fun _ hhead => ?_
    exact (ih.stmt (hn.opens (readForHead_recognized hhead)) (by omega)).bind fun _ _ => .ok
  · exact closeStmt_fuelled h.tail
  · exact closeStmt_fuelled h.tail
  · exact closeStmt_fuelled h.tail
  · exact .error (by simp [TooDeep])
  · exact .error (by simp [TooDeep])
  · refine (readSimple_fuelled h (by omega)).bind fun stmt hstmt => ?_
    exact closeStmt_fuelled (h.opens (readSimple_recognized hstmt))

end

/-- With fuel for its items, no reader of statements runs out of it. -/
theorem stmtsFuelled (fuel : Nat) : StmtsFuelled fuel := by
  induction fuel with
  | zero =>
    constructor <;> intros <;> omega
  | succ fuel ih =>
    exact {
      stmts := readStmts_fuelled ih
      stmt := readStmt_fuelled ih }

/-! ## Fuel for scripts -/

section

variable {fuel count : Nat} {items : List Item}

theorem readBlock_fuelled (h : Within count items) (hfuel : 4 * count + 5 ≤ fuel) :
    Avoids TooDeep (readBlock fuel items) := by
  refine h.shallow.peek.bind fun _ _ => ?_
  refine (avoids_expectSign h.shallow).bind fun _ hopening => ?_
  exact ((stmtsFuelled fuel).stmts (h.expect hopening) hfuel).bind fun _ _ => .ok

theorem readRoutine_fuelled (h : Within count items) (hfuel : 4 * count + 5 ≤ fuel) :
    Avoids TooDeep (readRoutine fuel items) := by
  refine h.shallow.peek.bind fun _ _ => ?_
  refine (avoids_expect h.tailIf.shallow).bind fun _ hword => ?_
  replace h := h.tailIf.expect hword
  refine (avoids_readName h.shallow).bind fun _ hname => ?_
  replace h := h.name hname
  refine (avoids_expectSign h.shallow).bind fun _ hopening => ?_
  replace h := h.expect hopening
  refine (avoids_expect h.shallow).bind fun _ hclosing => ?_
  exact (readBlock_fuelled (h.expect hclosing) hfuel).bind fun _ _ => .ok

theorem readScript_fuelled {constants : List Constant} {routines : List Routine}
    (h : Within count items) (hfuel : 4 * count + 6 ≤ fuel) :
    Avoids TooDeep (readScript fuel constants routines items) := by
  induction fuel generalizing count constants routines items with
  | zero => omega
  | succ fuel ih =>
    rw [readScript]
    refine h.shallow.peek.bind fun next hpeek => ?_
    have hroutine : Avoids TooDeep (readRoutine fuel items >>= fun read =>
        readScript fuel constants (read.1 :: routines) read.2) := by
      refine (readRoutine_fuelled h (by omega)).bind fun _ hread => ?_
      obtain ⟨n, rfl, hn⟩ := h.opensLess (readRoutine_recognized hread) Function.starts
      exact ih hn (by omega)
    split
    · exact .ok
    · next htoken =>
      obtain ⟨n, rfl, hn⟩ := h.behind hpeek (by simp [htoken])
      refine (readConstant_fuelled hn).bind fun _ hread => ?_
      exact ih (hn.opens (readConstant_recognized hread)) (by omega)
    · exact hroutine
    · exact hroutine
    · exact .error (by simp [TooDeep])

end

end Grammar

/-! ## The items of a text -/

/-- An item before the last one: a token other than the end, or a fault of the text. -/
def Inner (item : Item) : Prop :=
  Avoids TooDeep item ∧ ∀ lexeme, item = .ok lexeme → lexeme.token ≠ .eof

/-- The last item: the end of the text, or a fault of the text. -/
def Final (item : Item) : Prop :=
  Avoids TooDeep item ∧ ∀ lexeme, item = .ok lexeme → lexeme.token = .eof

theorem Inner.ok {token : Token} {line : Nat} (h : token ≠ .eof) : Inner (.ok ⟨token, line⟩) := by
  refine ⟨.ok, ?_⟩
  rintro lexeme ⟨⟩
  exact h

theorem Inner.error {line : Nat} {fault : SyntaxFault} (h : fault ≠ .tooDeep) :
    Inner (.error ⟨line, fault⟩) :=
  ⟨.error h, by simp⟩

theorem inner_readString (start : Nat) (cs : List Char) (line : Nat) (taken : List Char) :
    Inner (readString start cs line taken).item := by
  fun_induction readString start cs line taken with
  | case1 => exact .error (by simp)
  | case2 => exact .ok (by simp)
  | case3 => exact .error (by simp)
  | case4 _ _ _ _ _ _ ih => exact ih
  | case5 => exact .error (by simp)
  | case6 _ _ _ _ _ _ _ ih => exact ih

theorem numberToken_cases (digits : List Char) :
    (∃ value, numberToken digits = .ok (.number value)) ∨
      numberToken digits = .error (.numberTooLarge (String.ofList digits)) := by
  unfold numberToken
  split
  · next value _ => exact .inl ⟨value, rfl⟩
  · exact .inr rfl

theorem wordToken_cases (word : List Char) :
    (∃ keyword, wordToken word = .keyword keyword) ∨
      wordToken word = .ident (String.ofList word) := by
  simp only [wordToken]
  split
  · next keyword _ => exact .inl ⟨keyword, rfl⟩
  · exact .inr rfl

theorem inner_readItem (c : Char) (rest : List Char) (line : Nat) :
    Inner (readItem c rest line).item := by
  unfold readItem
  split
  · exact .ok (by simp)
  · split_ifs
    · exact inner_readString ..
    · rcases numberToken_cases (c :: rest.takeWhile Char.isDigit) with ⟨value, htoken⟩ | htoken
      · rw [htoken]
        exact .ok (by simp)
      · rw [htoken]
        exact .error (by simp)
    · rcases wordToken_cases (c :: rest.takeWhile isNamePart) with ⟨word, htoken⟩ | htoken
      · exact .ok (by simp [htoken])
      · exact .ok (by simp [htoken])
    · exact .error (by simp)

theorem avoids_skipTrivia (state : Trivia) (cs : List Char) (line : Nat) :
    Avoids TooDeep (skipTrivia state cs line) := by
  fun_induction skipTrivia state cs line with
  | case1 => exact .ok
  | case2 _ _ ih => exact ih
  | case3 _ _ ih => exact ih
  | case4 _ _ _ _ _ _ ih => exact ih
  | case5 => exact .ok
  | case6 => exact .ok
  | case7 _ _ _ ih => exact ih
  | case8 => exact .error (by simp [TooDeep])
  | case9 _ _ _ _ _ ih => exact ih

/-- Behind what was read before, a text has inner items and a final one. -/
theorem itemsFrom_eq_append (cs : List Char) (line : Nat) (taken : List Item) :
    ∃ front last, itemsFrom cs line taken = taken.reverse ++ (front ++ [last]) ∧
      (∀ item ∈ front, Inner item) ∧ Final last := by
  fun_induction itemsFrom cs line taken with
  | case1 cs line taken e hskipped =>
    exact ⟨[], .error e, by simp, by simp, .error (avoids_skipTrivia _ _ _ e hskipped), by simp⟩
  | case2 cs line taken line' hskipped =>
    refine ⟨[], .ok ⟨.eof, line'⟩, by simp, by simp, .ok, ?_⟩
    rintro lexeme ⟨⟩
    rfl
  | case3 cs line taken c rest line' hskipped read ih =>
    obtain ⟨front, last, hitems, hfront, hlast⟩ := ih
    refine ⟨read.item :: front, last, by simp [hitems], ?_, hlast⟩
    intro item hitem
    rcases List.mem_cons.mp hitem with rfl | hitem
    · exact inner_readItem c rest line'
    · exact hfront item hitem

theorem items_eq_append (source : String) :
    ∃ front last, items source = front ++ [last] ∧ (∀ item ∈ front, Inner item) ∧ Final last :=
  itemsFrom_eq_append source.toList 1 []

theorem shallow_items (source : String) : Shallow (items source) := by
  obtain ⟨front, last, hitems, hfront, hlast⟩ := items_eq_append source
  rw [hitems]
  intro item hitem
  rcases List.mem_append.mp hitem with hitem | hitem
  · exact (hfront item hitem).1
  · rw [List.mem_singleton.mp hitem]
    exact hlast.1

theorem ended_items (source : String) : Grammar.Ended (items source) := by
  obtain ⟨front, last, hitems, -, hlast⟩ := items_eq_append source
  exact ⟨last, by simp [hitems], hlast.2⟩

/-- Nothing stands behind the end of a text. -/
theorem eq_nil_of_eof {source : String} {front : List Lexeme} {line : Nat} {rest : List Item}
    (h : items source = itemsOf (front ++ [⟨.eof, line⟩]) ++ rest) : rest = [] := by
  obtain ⟨inner, last, hitems, hinner, -⟩ := items_eq_append source
  rcases List.eq_nil_or_concat rest with hnil | ⟨others, final, rfl⟩
  · exact hnil
  · rw [hitems, List.concat_eq_append, ← List.append_assoc] at h
    obtain ⟨rfl, -⟩ := List.append_inj' h rfl
    have hmem : .ok ⟨.eof, line⟩ ∈ itemsOf (front ++ [⟨.eof, line⟩]) ++ others := by simp
    exact absurd rfl ((hinner _ hmem).2 _ rfl)

namespace Grammar

theorem Whole.exists_eof {lexemes : List Lexeme} {script : Declarations}
    (h : Whole lexemes script) :
    ∃ front line, lexemes = front ++ [⟨.eof, line⟩] := by
  induction h with
  | eof line => exact ⟨[], line, rfl⟩
  | const line _ _ ih =>
    obtain ⟨front, last, rfl⟩ := ih
    exact ⟨_ :: (_ ++ front), last, by rw [List.cons_append, List.append_assoc]⟩
  | routine _ _ ih =>
    obtain ⟨front, last, rfl⟩ := ih
    exact ⟨_ ++ front, last, (List.append_assoc ..).symm⟩

/-- A row of tokens stands for at most one script. -/
theorem Whole.unique {lexemes : List Lexeme} {first second : Declarations}
    (hfirst : Whole lexemes first)
    (hsecond : Whole lexemes second) : first = second := by
  have hread : readScript (4 * lexemes.length + 1) [] [] (itemsOf lexemes) = _ :=
    hfirst.read (Nat.le_refl _)
  rw [hsecond.read (Nat.le_refl _)] at hread
  exact (Except.ok.inj hread).symm

end Grammar

/-! ## Parsing -/

theorem avoids_parse (source : String) : Avoids TooDeep (parse source) :=
  Grammar.readScript_fuelled ⟨shallow_items source, Nat.le_refl _⟩ (by rw [parseFuel]; omega)

theorem exists_whole_of_parse {source : String} {script : Declarations}
    (h : parse source = .ok script) :
    ∃ lexemes, items source = itemsOf lexemes ∧ Grammar.Whole lexemes script := by
  obtain ⟨found, rest, ⟨lexemes, hitems, hwhole⟩, rfl⟩ :=
    Grammar.readScript_recognized (ended_items source) h
  obtain ⟨front, line, rfl⟩ := hwhole.exists_eof
  obtain rfl := eq_nil_of_eof hitems
  exact ⟨_, by simpa using hitems, hwhole⟩

theorem parse_of_whole {source : String} {lexemes : List Lexeme} {script : Declarations}
    (hitems : items source = itemsOf lexemes) (h : Grammar.Whole lexemes script) :
    parse source = .ok script := by
  rw [parse, parseItems, hitems, length_itemsOf, h.read (by rw [parseFuel]; omega)]
  rfl

/-- A text is parsed to a script if and only if none of its tokens is malformed and its tokens stand
for that script; what refuses a text is a fault of the text and never a lack of fuel. -/
theorem parse_follows_grammar (source : String) :
    (∀ script, parse source = .ok script ↔
      ∃ lexemes, items source = lexemes.map .ok ∧ Grammar.Whole lexemes script) ∧
    (∀ line, parse source ≠ .error ⟨line, .tooDeep⟩) := by
  refine ⟨fun script => ⟨exists_whole_of_parse, ?_⟩, ?_⟩
  · rintro ⟨lexemes, hitems, hwhole⟩
    exact parse_of_whole hitems hwhole
  · intro line herror
    exact avoids_parse source _ herror rfl

end RoomForge.Script
