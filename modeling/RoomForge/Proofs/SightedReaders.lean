import RoomForge.Proofs.Lookahead
import RoomForge.Proofs.Prefixes

set_option autoImplicit false

/-! # Every reader has one token of lookahead

The readers of expressions, statements and functions go by the tokens they take and the next one,
and whatever they have taken when they fail starts a phrase of theirs. Trees of expressions do not
depend on lines; of the others nothing is compared. `readRoutine_sighted` is the last of them, and
all that `Proofs.FirstOffense` has to know of readers.
-/

namespace RoomForge.Script.Grammar

/-! ## Expressions -/

theorem Primary.expression {lexemes : List Lexeme} {expr : Expr} (h : Primary lexemes expr) :
    Expression lexemes expr :=
  (Binary.operand (.primary h)).loosen (by decide)

theorem Unary.expression {lexemes : List Lexeme} {expr : Expr} (h : Unary lexemes expr) :
    Expression lexemes expr :=
  (Binary.operand h).loosen (by decide)

theorem begins_expression : Begins Expression [] :=
  .of_append (Primary.int 0 1).expression [⟨.number 0, 1⟩] rfl (by simp)

/-- What the readers of expressions go by, with a given fuel. -/
structure ExprsSighted (fuel : Nat) : Prop where
  binary : ∀ {fuel' level : Nat} {items others : List Item}, fuel ≤ fuel' →
    Sighted (Begins Expression) id (readBinary fuel level items) (readBinary fuel' level others)
      items others
  /-- Behind the row of tokens of the left operand. -/
  operators : ∀ {fuel' level : Nat} {row : List Lexeme} {left expr : Expr}
    {items others : List Item}, fuel ≤ fuel' → Expression row expr →
    Sighted (fun more => Begins Expression (row ++ more)) id (readOperators fuel level left items)
      (readOperators fuel' level left others) items others
  unary : ∀ {fuel' : Nat} {items others : List Item}, fuel ≤ fuel' →
    Sighted (Begins Expression) id (readUnary fuel items) (readUnary fuel' others) items others
  primary : ∀ {fuel' : Nat} {items others : List Item}, fuel ≤ fuel' →
    Sighted (Begins Expression) id (readPrimary fuel items) (readPrimary fuel' others) items others
  args : ∀ {fuel' : Nat} {taken : List Expr} {items others : List Item}, fuel ≤ fuel' →
    Sighted (Begins (Closed .rparen Args)) id (readArgs fuel taken items)
      (readArgs fuel' taken others) items others

section

variable {fuel fuel' : Nat} {items others : List Item}

theorem readBinary_sighted (ih : ExprsSighted fuel) {level : Nat} (hfuel : fuel ≤ fuel') :
    Sighted (Begins Expression) id (readBinary (fuel + 1) level items)
      (readBinary (fuel' + 1) level others) items others := by
  rw [readBinary, readBinary]
  refine (ih.unary hfuel).bind fun left left' front rest behind hleft htakes hview => ?_
  obtain rfl : left' = left := hview
  exact ih.operators hfuel (htakes.phrase ((exprsRecognized fuel).unary hleft)).expression

theorem readOperators_sighted (ih : ExprsSighted fuel) {level : Nat} {row : List Lexeme}
    {left expr : Expr} (hfuel : fuel ≤ fuel') (hrow : Expression row expr) :
    Sighted (fun more => Begins Expression (row ++ more)) id
      (readOperators (fuel + 1) level left items) (readOperators (fuel' + 1) level left others)
      items others := by
  rw [readOperators, readOperators]
  refine .look (by simpa using Begins.of_phrase hrow) fun token line line' hpeek => ?_
  cases hop : BinOp.ofToken? token with
  | none => exact sighted_ok rfl
  | some op =>
    by_cases hlow : op.level < level
    · simp only [if_pos hlow]
      exact sighted_ok rfl
    · simp only [if_neg hlow]
      obtain ⟨punct, rfl, hoperator⟩ := exists_sign_of_ofToken? hop
      refine .consume hpeek (by simp) (.bind ((ih.binary hfuel).mono fun front hfront => ?_)
        fun right right' front rest behind hright htakes hview => ?_)
      · have hwhole := hfront.within (row ++ [sign punct line]) [] (by simp) fun h => by
          simpa using hrow.join hoperator line h
        simpa using hwhole
      · obtain rfl : right' = right := hview
        have hbinary := (exprsRecognized fuel).binary (level_lt_operandLevel op) hright
        obtain ⟨whole, hwhole⟩ := hrow.join hoperator line (htakes.phrase hbinary.1)
        exact (ih.operators hfuel hwhole).mono fun more hmore => by simpa using hmore

theorem readUnary_sighted (ih : ExprsSighted fuel) (hfuel : fuel ≤ fuel') :
    Sighted (Begins Expression) id (readUnary (fuel + 1) items) (readUnary (fuel' + 1) others)
      items others := by
  rw [readUnary, readUnary]
  refine .look begins_expression fun token line line' hpeek => ?_
  cases hop : UnOp.ofToken? token with
  | none => exact ih.primary hfuel
  | some op =>
    obtain ⟨punct, rfl⟩ : ∃ punct, token = .punct punct := by
      rcases sign_of_unOp hop with ⟨hsign, -⟩ | ⟨hsign, -⟩ <;> exact ⟨_, hsign⟩
    have hsigned : ∀ front, Begins Expression front →
        Begins Expression (sign punct line :: front) := fun front hfront =>
      hfront.within [sign punct line] [] (by simp) fun h => by simpa using h.signed hop line
    refine .consume hpeek (by simp) (.look (hsigned [] begins_expression)
      fun second place place' hsecond => ?_)
    have hmake : ∀ (tree tree' : Expr) (front : List Lexeme) (rest behind : List Item),
        readUnary fuel items.tail = .ok (tree, rest) → Takes front items.tail rest → tree' = tree →
        Sighted (fun more => Begins Expression (sign punct line :: (front ++ more))) id
          (.ok (Expr.unary op tree, rest)) (.ok (Expr.unary op tree', behind)) rest behind := by
      rintro tree _ front rest behind - - rfl
      exact sighted_ok rfl
    cases op with
    | not => exact .bind ((ih.unary hfuel).mono hsigned) hmake
    | neg =>
      cases second with
      | number value => exact .consume hsecond (by simp) (sighted_ok rfl)
      | _ => exact .bind ((ih.unary hfuel).mono hsigned) hmake

theorem readPrimary_sighted (ih : ExprsSighted fuel) (hfuel : fuel ≤ fuel') :
    Sighted (Begins Expression) id (readPrimary (fuel + 1) items) (readPrimary (fuel' + 1) others)
      items others := by
  rw [readPrimary, readPrimary]
  refine .look begins_expression fun token line line' hpeek => ?_
  cases token with
  | number value => exact .consume hpeek (by simp) (sighted_ok rfl)
  | str text => exact .consume hpeek (by simp) (sighted_ok rfl)
  | ident name =>
    refine .consume hpeek (by simp) (.look (.of_phrase (Primary.ident name line).expression)
      fun second opening opening' hsecond => ?_)
    by_cases hparen : second = .punct .lparen
    · subst hparen
      simp only [if_true]
      refine .consume hsecond (by simp) (.look
        (.of_append (Primary.callNone name line opening 1).expression [sign .rparen 1] rfl
          (by simp))
        fun third closing closing' hthird => ?_)
      by_cases hclosing : third = .punct .rparen
      · simp only [if_pos hclosing]
        exact .consume hthird (by simp [hclosing]) (sighted_ok rfl)
      · simp only [if_neg hclosing]
        refine .bind ((ih.args hfuel).mono fun front hfront => ?_)
          fun args args' _ _ _ _ _ hview => ?_
        · refine hfront.within [⟨.ident name, line⟩, sign .lparen opening] [] (by simp) ?_
          rintro _ args ⟨inner, closing, rfl, hargs⟩
          exact ⟨_, by simpa using (Primary.call name line opening closing hargs).expression⟩
        · obtain rfl : args' = args := hview
          exact sighted_ok rfl
    · simp only [if_neg hparen]
      exact sighted_ok rfl
  | punct punct =>
    cases punct with
    | lparen =>
      refine .consume hpeek (by simp) (.bind ((ih.binary hfuel).mono fun front hfront => ?_)
        fun inner inner' front rest behind hinner htakes hview => ?_)
      · exact hfront.within [sign .lparen line] [sign .rparen 1] (by simp)
          fun h => ⟨_, (Primary.paren line 1 h).expression⟩
      · obtain rfl : inner' = inner := hview
        have hbinary := htakes.phrase ((exprsRecognized fuel).binary (by decide) hinner).1
        exact .expectSign (.of_append (Primary.paren line 1 hbinary).expression [sign .rparen 1]
          (by simp) (by simp)) fun closing rest behind _ => sighted_ok rfl
    | _ => exact sighted_unexpected hpeek begins_expression
  | _ => exact sighted_unexpected hpeek begins_expression

theorem readArgs_sighted (ih : ExprsSighted fuel) {taken : List Expr} (hfuel : fuel ≤ fuel') :
    Sighted (Begins (Closed .rparen Args)) id (readArgs (fuel + 1) taken items)
      (readArgs (fuel' + 1) taken others) items others := by
  rw [readArgs, readArgs]
  refine .bind ((ih.binary hfuel).mono fun front hfront => ?_)
    fun arg arg' front rest behind harg htakes hview => ?_
  · exact hfront.within [] [sign .rparen 1] (by simp)
      fun h => ⟨_, _, 1, rfl, .last h⟩
  · obtain rfl : arg' = arg := hview
    have hbinary := htakes.phrase ((exprsRecognized fuel).binary (by decide) harg).1
    have hbegins : Begins (Closed .rparen Args) (front ++ []) :=
      .of_append ⟨front, 1, rfl, .last hbinary⟩ [sign .rparen 1] (by simp)
        (by simp)
    refine .look hbegins fun token line line' hpeek => ?_
    cases token with
    | punct punct =>
      cases punct with
      | comma =>
        refine .consume hpeek (by simp) ((ih.args hfuel).mono fun more hmore => ?_)
        have hwhole : Begins (Closed .rparen Args) ((front ++ [sign .comma line]) ++ more) := by
          refine hmore.within _ [] (by simp) ?_
          rintro _ args ⟨inner, closing, rfl, hargs⟩
          exact ⟨_, _, closing, by simp, .more line hbinary hargs⟩
        simpa using hwhole
      | rparen => exact .consume hpeek (by simp) (sighted_ok rfl)
      | _ => exact sighted_unexpected hpeek hbegins
    | _ => exact sighted_unexpected hpeek hbegins

end

/-- A run with more fuel has some left, too. -/
theorem exists_of_succ_le {fuel fuel' : Nat} (h : fuel + 1 ≤ fuel') :
    ∃ more, fuel' = more + 1 ∧ fuel ≤ more :=
  ⟨fuel' - 1, by omega, by omega⟩

/-- With any fuel, the readers of expressions have one token of lookahead. -/
theorem exprsSighted (fuel : Nat) : ExprsSighted fuel := by
  induction fuel with
  | zero =>
    exact {
      binary := fun _ => sighted_outOfFuel begins_expression
      operators := fun _ hrow => sighted_outOfFuel (by simpa using Begins.of_phrase hrow)
      unary := fun _ => sighted_outOfFuel begins_expression
      primary := fun _ => sighted_outOfFuel begins_expression
      args := fun _ => sighted_outOfFuel (begins_expression.within [] [sign .rparen 1]
        (by simp) fun h => ⟨_, _, 1, rfl, .last h⟩) }
  | succ fuel ih =>
    constructor
    case binary =>
      intro fuel' level items others h
      obtain ⟨more, rfl, hle⟩ := exists_of_succ_le h
      exact readBinary_sighted ih hle
    case operators =>
      intro fuel' level row left expr items others h hrow
      obtain ⟨more, rfl, hle⟩ := exists_of_succ_le h
      exact readOperators_sighted ih hle hrow
    case unary =>
      intro fuel' items others h
      obtain ⟨more, rfl, hle⟩ := exists_of_succ_le h
      exact readUnary_sighted ih hle
    case primary =>
      intro fuel' items others h
      obtain ⟨more, rfl, hle⟩ := exists_of_succ_le h
      exact readPrimary_sighted ih hle
    case args =>
      intro fuel' taken items others h
      obtain ⟨more, rfl, hle⟩ := exists_of_succ_le h
      exact readArgs_sighted ih hle

/-! ## Parts of statements -/

/-- An expression in parentheses, as a condition. -/
def Condition (lexemes : List Lexeme) (cond : Expr) : Prop :=
  ∃ opening inner closing, lexemes = sign .lparen opening :: (inner ++ [sign .rparen closing]) ∧
    Expression inner cond

section

variable {fuel fuel' : Nat} {items others : List Item}

theorem readExpr_sighted (hfuel : fuel ≤ fuel') :
    Sighted (Begins Expression) id (readExpr fuel items) (readExpr fuel' others) items others :=
  (exprsSighted fuel).binary hfuel

theorem readConstant_sighted :
    Sighted (Begins ConstantTail) unseen (readConstant items) (readConstant others)
      items others := by
  rw [readConstant, readConstant]
  refine .name (.of_append (.positive "x" 0 1 1 1 1) _ rfl (by simp)) fun name first _ _ _ => ?_
  refine .expectSign (.of_append (.positive name 0 first 1 1 1) _ rfl (by simp))
    fun assign _ _ _ => ?_
  have hbegins : Begins ConstantTail [⟨.ident name, first⟩, sign .assign assign] :=
    .of_append (.positive name 0 first assign 1 1) _ rfl (by simp)
  refine .look hbegins fun token minus _ hminus => ?_
  by_cases hnegative : token = .punct .minus
  · subst hnegative
    simp only [if_true]
    have hbegins' : Begins ConstantTail
        [⟨.ident name, first⟩, sign .assign assign, sign .minus minus] :=
      .of_append (.negative name 0 first assign minus 1 1) _ rfl (by simp)
    refine .consume hminus (by simp) (.look hbegins' fun token number _ hnumber => ?_)
    cases token with
    | number value =>
      exact .consume hnumber (by simp) (.expectSign
        (.of_append (.negative name value first assign minus number 1) _ rfl (by simp))
        fun _ _ _ _ => sighted_ok rfl)
    | _ => exact sighted_unexpected hnumber hbegins'
  · simp only [if_neg hnegative]
    refine .look hbegins fun token number _ hnumber => ?_
    cases token with
    | number value =>
      exact .consume hnumber (by simp) (.expectSign
        (.of_append (.positive name value first assign number 1) _ rfl (by simp))
        fun _ _ _ _ => sighted_ok rfl)
    | _ => exact sighted_unexpected hnumber hbegins

theorem readCondition_sighted (hfuel : fuel ≤ fuel') :
    Sighted (Begins Condition) unseen (readCondition fuel items) (readCondition fuel' others)
      items others := by
  have hwithin : ∀ {front : List Lexeme} (opening : Nat), Begins Expression front →
      Begins Condition (sign .lparen opening :: front) := fun opening hfront =>
    hfront.within [sign .lparen opening] [sign .rparen 1] (by simp)
      fun h => ⟨_, opening, _, 1, rfl, h⟩
  rw [readCondition, readCondition]
  refine .expectSign ?_ fun opening _ _ _ => ?_
  · obtain ⟨more, cond, hmore, hphrase⟩ := hwithin 1 begins_expression
    exact ⟨sign .lparen 1 :: more, cond, by simpa using hmore, hphrase⟩
  refine .bind ((readExpr_sighted hfuel).mono fun _ => hwithin opening)
    fun cond cond' front _ _ hcond htakes _ => ?_
  have hexpr := htakes.phrase (readExpr_recognized hcond)
  exact .expectSign (.of_append ⟨opening, front, 1, rfl, hexpr⟩ [sign .rparen 1] (by simp)
    (by simp)) fun _ _ _ _ => sighted_ok rfl

theorem readSimple_sighted (hfuel : fuel ≤ fuel') :
    Sighted (Begins Simple) unseen (readSimple fuel items) (readSimple fuel' others)
      items others := by
  have heval : ∀ {front : List Lexeme}, Begins Expression front → Begins Simple front :=
    fun hfront => hfront.within [] [] (by simp) fun h => ⟨_, by simpa using Simple.eval h⟩
  rw [readSimple, readSimple]
  refine .look (heval begins_expression) fun token line _ hpeek => ?_
  by_cases hvar : token = .keyword .varWord
  · subst hvar
    simp only [if_true]
    refine .consume hpeek (by simp) (.name (.of_append (.var "x" line 1) _ rfl (by simp))
      fun name place _ _ _ => .look (.of_phrase (.var name line place))
        fun second assign _ hsecond => ?_)
    by_cases hassign : second = .punct .assign
    · subst hassign
      simp only [if_true]
      refine .consume hsecond (by simp) (.returns ((readExpr_sighted hfuel).mono fun _ h => ?_)
        (fun _ _ => ⟨_, rfl⟩) fun _ _ => ⟨_, rfl⟩)
      exact h.within [word .varWord line, ⟨.ident name, place⟩, sign .assign assign] [] (by simp)
        fun h => ⟨_, by simpa using Simple.varInit name line place assign h⟩
    · simp only [if_neg hassign]
      exact sighted_ok rfl
  · simp only [if_neg hvar]
    refine .bind ((readExpr_sighted hfuel).mono fun _ => heval)
      fun expr expr' front _ _ hexpr htakes hview => ?_
    obtain rfl : expr' = expr := hview
    have hphrase := htakes.phrase (readExpr_recognized hexpr)
    have hbegins : Begins Simple (front ++ []) := by simpa using Begins.of_phrase (.eval hphrase)
    refine .look hbegins fun second assign _ hsecond => ?_
    by_cases hassign : second = .punct .assign
    · subst hassign
      simp only [if_true]
      cases expr' with
      | ident name =>
        refine .consume hsecond (by simp) (.returns ((readExpr_sighted hfuel).mono fun _ h => ?_)
          (fun _ _ => ⟨_, rfl⟩) fun _ _ => ⟨_, rfl⟩)
        have hwhole : Begins Simple ((front ++ [sign .assign assign]) ++ _) :=
          h.within _ [] (by simp) fun h =>
            ⟨_, by simpa using Simple.assign assign (hphrase.target rfl) h⟩
        simpa using hwhole
      | _ => exact sighted_error hsecond hbegins rfl .assignmentTarget
    · simp only [if_neg hassign]
      exact sighted_ok rfl

theorem readUnless_sighted {α ν : Type} {Phrase : List Lexeme → α → Prop} {view : α → ν}
    {stop : Token} {read read' : List Item → Except SyntaxError (Parsed α)}
    (h : Sighted (Begins Phrase) view (read items) (read' others) items others) :
    Sighted (Begins (Optional Phrase)) unseen (readUnless stop read items)
      (readUnless stop read' others) items others := by
  rw [readUnless, readUnless]
  refine .look (.of_phrase .none) fun token line _ hpeek => ?_
  by_cases hstop : token = stop
  · simp only [if_pos hstop]
    exact sighted_ok rfl
  · simp only [if_neg hstop]
    refine .returns (h.mono fun _ hfront => ?_) (fun _ _ => ⟨_, rfl⟩) fun _ _ => ⟨_, rfl⟩
    exact hfront.within [] [] (by simp) fun hphrase => ⟨_, by simpa using Optional.some hphrase⟩

theorem begins_head : Begins Head [] :=
  .of_append (.mk 1 1 1 1 .none .none .none) _ rfl (by simp)

theorem readForHead_sighted (hfuel : fuel ≤ fuel') :
    Sighted (Begins Head) unseen (readForHead fuel items) (readForHead fuel' others)
      items others := by
  rw [readForHead, readForHead]
  refine .expectSign begins_head fun opening _ _ _ => ?_
  refine .bind ((readUnless_sighted (readSimple_sighted hfuel)).mono fun _ h => ?_)
    fun init _ start _ _ hinit htakes _ => ?_
  · exact h.within [sign .lparen opening] [sign .semicolon 1, sign .semicolon 1, sign .rparen 1]
      (by simp) fun h => ⟨_, by simpa using Head.mk opening 1 1 1 h .none .none⟩
  replace hinit := htakes.phrase (readUnless_recognized readSimple_recognized hinit)
  refine .expectSign (.of_append (.mk opening 1 1 1 hinit .none .none)
    [sign .semicolon 1, sign .semicolon 1, sign .rparen 1] (by simp) (by simp))
    fun first _ _ _ => ?_
  refine .bind ((readUnless_sighted (readExpr_sighted hfuel)).mono fun _ h => ?_)
    fun cond _ test _ _ hcond htakes _ => ?_
  · have hwhole : Begins Head ((sign .lparen opening :: (start ++ [sign .semicolon first])) ++ _) :=
      h.within _ [sign .semicolon 1, sign .rparen 1] (by simp)
        fun h => ⟨_, by simpa using Head.mk opening first 1 1 hinit h .none⟩
    simpa using hwhole
  replace hcond := htakes.phrase (readUnless_recognized readExpr_recognized hcond)
  refine .expectSign (.of_append (.mk opening first 1 1 hinit hcond .none)
    [sign .semicolon 1, sign .rparen 1] (by simp) (by simp)) fun second _ _ _ => ?_
  refine .bind ((readUnless_sighted (readSimple_sighted hfuel)).mono fun _ h => ?_)
    fun step _ after _ _ hstep htakes _ => ?_
  · have hwhole : Begins Head ((sign .lparen opening :: (start ++ sign .semicolon first ::
        (test ++ [sign .semicolon second]))) ++ _) :=
      h.within _ [sign .rparen 1] (by simp)
        fun h => ⟨_, by simpa using Head.mk opening first second 1 hinit hcond h⟩
    simpa using hwhole
  replace hstep := htakes.phrase (readUnless_recognized readSimple_recognized hstep)
  exact .expectSign (.of_append (.mk opening first second 1 hinit hcond hstep) [sign .rparen 1]
    (by simp) (by simp)) fun _ _ _ _ => sighted_ok rfl

theorem closeStmt_sighted {Viable : List Lexeme → Prop} {stmt stmt' : Stmt} (h : Viable []) :
    Sighted Viable unseen (closeStmt stmt items) (closeStmt stmt' others) items others := by
  rw [closeStmt, closeStmt]
  exact .expectSign h fun _ _ _ _ => sighted_ok rfl

end

/-! ## Statements -/

theorem begins_statement : Begins Statement [] :=
  .of_append (.empty 1) _ rfl (by simp)

theorem begins_body : Begins (Closed .rbrace Body) [] :=
  .of_append ⟨[], 1, rfl, .nil⟩ [sign .rbrace 1] rfl (by simp)

/-- What the readers of statements go by, with a given fuel. -/
structure StmtsSighted (fuel : Nat) : Prop where
  stmts : ∀ {fuel' : Nat} {taken taken' : List Stmt} {items others : List Item}, fuel ≤ fuel' →
    Sighted (Begins (Closed .rbrace Body)) unseen (readStmts fuel taken items)
      (readStmts fuel' taken' others) items others
  stmt : ∀ {fuel' : Nat} {items others : List Item}, fuel ≤ fuel' →
    Sighted (Begins Statement) unseen (readStmt fuel items) (readStmt fuel' others) items others

section

variable {fuel fuel' : Nat} {items others : List Item}

theorem readStmts_sighted (ih : StmtsSighted fuel) {taken taken' : List Stmt}
    (hfuel : fuel ≤ fuel') :
    Sighted (Begins (Closed .rbrace Body)) unseen (readStmts (fuel + 1) taken items)
      (readStmts (fuel' + 1) taken' others) items others := by
  rw [readStmts, readStmts]
  refine .look begins_body fun token line _ hpeek => ?_
  have hstmt : Sighted (Begins (Closed .rbrace Body)) unseen
      (readStmt fuel items >>= fun read => readStmts fuel (read.1 :: taken) read.2)
      (readStmt fuel' others >>= fun read => readStmts fuel' (read.1 :: taken') read.2)
      items others := by
    refine .bind ((ih.stmt hfuel).mono fun _ h => ?_) fun stmt _ front _ _ hstmt htakes _ => ?_
    · exact h.within [] [sign .rbrace 1] (by simp)
        fun h => ⟨_, _, 1, rfl, by simpa using Body.cons h .nil⟩
    · have hphrase := htakes.phrase ((stmtsRecognized fuel).stmt hstmt).1
      refine (ih.stmts hfuel).mono fun _ h => h.within front [] (by simp) ?_
      rintro _ body ⟨inner, closing, rfl, hbody⟩
      exact ⟨_, _, closing, by simp, .cons hphrase hbody⟩
  cases token with
  | eof => exact sighted_error hpeek begins_body rfl .unclosedBlock
  | punct punct =>
    cases punct with
    | rbrace => exact .consume hpeek (by simp) (sighted_ok rfl)
    | _ => exact hstmt
  | _ => exact hstmt

/-- A condition has been read. -/
theorem condition_of_read {front : List Lexeme} {rest : List Item} {cond : Expr}
    (hread : readCondition fuel items = .ok (cond, rest)) (htakes : Takes front items rest) :
    Condition front cond := by
  obtain ⟨opening, closing, behind, rfl, inner, rfl, hcond⟩ := readCondition_recognized hread
  have hfront : front = sign .lparen opening :: (inner ++ [sign .rparen closing]) :=
    htakes.eq_of_append (by simp)
  exact ⟨opening, inner, closing, hfront, hcond⟩

theorem statement_if (line : Nat) {test yes : List Lexeme} {cond : Expr} {yesStmt : Stmt}
    (hcond : Condition test cond) (hyes : Statement yes yesStmt) :
    Statement (word .ifWord line :: (test ++ yes)) (.ifElse line cond yesStmt none) := by
  obtain ⟨opening, inner, closing, rfl, hexpr⟩ := hcond
  simpa using Statement.ifThen line opening closing hexpr hyes

theorem statement_while (line : Nat) {test lexemes : List Lexeme} {cond : Expr} {body : Stmt}
    (hcond : Condition test cond) (hbody : Statement lexemes body) :
    Statement (word .whileWord line :: (test ++ lexemes)) (.whileLoop line cond body) := by
  obtain ⟨opening, inner, closing, rfl, hexpr⟩ := hcond
  simpa using Statement.whileLoop line opening closing hexpr hbody

/-- Reading an `if`, behind its keyword. -/
theorem readIf_sighted (ih : StmtsSighted fuel) (hfuel : fuel ≤ fuel') {line line' : Nat} :
    Sighted (fun front => Begins Statement (word .ifWord line :: front)) unseen
      (do
        let (cond, items) ← readCondition fuel items
        let (yes, items) ← readStmt fuel items
        if (← peek items).token = Token.keyword .elseWord then
          let (no, items) ← readStmt fuel items.tail
          .ok (Stmt.ifElse line cond yes (some no), items)
        else .ok (Stmt.ifElse line cond yes none, items))
      (do
        let (cond, others) ← readCondition fuel' others
        let (yes, others) ← readStmt fuel' others
        if (← peek others).token = Token.keyword .elseWord then
          let (no, others) ← readStmt fuel' others.tail
          .ok (Stmt.ifElse line' cond yes (some no), others)
        else .ok (Stmt.ifElse line' cond yes none, others)) items others := by
  refine .bind ((readCondition_sighted hfuel).mono fun _ h => ?_)
    fun cond _ test _ _ hcond htakes _ => ?_
  · exact h.within [word .ifWord line] [sign .semicolon 1] (by simp)
      fun h => ⟨_, by simpa using statement_if line h (.empty 1)⟩
  replace hcond := condition_of_read hcond htakes
  refine .bind ((ih.stmt hfuel).mono fun _ h => ?_) fun yes _ row _ _ hread htakes _ => ?_
  · exact h.within (word .ifWord line :: test) [] (by simp)
      fun h => ⟨_, by simpa using statement_if line hcond h⟩
  obtain ⟨hopens, hopen⟩ := (stmtsRecognized fuel).stmt hread
  have hyes := htakes.phrase hopens
  refine .look (by simpa using Begins.of_phrase (statement_if line hcond hyes))
    fun token middle _ hpeek => ?_
  by_cases helse : token = .keyword .elseWord
  · subst helse
    -- An `if` at the end of the first branch would have taken the `else`.
    have hclosed : ¬ yes.EndsOpen := by
      intro hyesOpen
      obtain ⟨next, hnext, hne⟩ := hopen hyesOpen
      obtain rfl := Except.ok.inj (hnext.symm.trans hpeek)
      exact hne rfl
    simp only [if_true]
    refine .consume hpeek (by simp) (.returns ((ih.stmt hfuel).mono fun _ h => ?_)
      (fun _ _ => ⟨_, rfl⟩) fun _ _ => ⟨_, rfl⟩)
    obtain ⟨opening, inner, closing, rfl, hexpr⟩ := hcond
    have hwhole : Begins Statement ((word .ifWord line :: sign .lparen opening ::
        (inner ++ sign .rparen closing :: (row ++ [word .elseWord middle]))) ++ _) :=
      h.within _ [] (by simp) fun h =>
        ⟨_, by simpa using Statement.ifElse line opening closing middle hexpr hyes hclosed h⟩
    simpa using hwhole
  · simp only [if_neg helse]
    exact sighted_ok rfl

theorem readStmt_sighted (ih : StmtsSighted fuel) (hfuel : fuel ≤ fuel') :
    Sighted (Begins Statement) unseen (readStmt (fuel + 1) items) (readStmt (fuel' + 1) others)
      items others := by
  rw [readStmt, readStmt]
  refine .look begins_statement fun token line line' hpeek => ?_
  have hsimple : Sighted (Begins Statement) unseen
      (do
        let (stmt, items) ← readSimple fuel items
        closeStmt stmt items)
      (do
        let (stmt, others) ← readSimple fuel' others
        closeStmt stmt others) items others := by
    refine .bind ((readSimple_sighted hfuel).mono fun _ h => ?_)
      fun stmt _ front _ _ hread htakes _ => ?_
    · exact h.within [] [sign .semicolon 1] (by simp) fun h => ⟨_, .simple 1 h⟩
    · have hphrase := htakes.phrase (readSimple_recognized hread)
      exact closeStmt_sighted
        (.of_append (.simple 1 hphrase) [sign .semicolon 1] (by simp) (by simp))
  cases token with
  | punct punct =>
    cases punct with
    | lbrace =>
      refine .consume hpeek (by simp) (.returns ((ih.stmts hfuel).mono fun _ h => ?_)
        (fun _ _ => ⟨_, rfl⟩) fun _ _ => ⟨_, rfl⟩)
      refine h.within [sign .lbrace line] [] (by simp) ?_
      rintro _ body ⟨inner, closing, rfl, hbody⟩
      exact ⟨_, by simpa using Statement.block line closing hbody⟩
    | semicolon => exact .consume hpeek (by simp) (sighted_ok rfl)
    | _ => exact hsimple
  | keyword keyword =>
    cases keyword with
    | constWord =>
      refine .consume hpeek (by simp) (.returns (readConstant_sighted.mono fun _ h => ?_)
        (fun _ _ => ⟨_, rfl⟩) fun _ _ => ⟨_, rfl⟩)
      exact h.within [word .constWord line] [] (by simp)
        fun h => ⟨_, by simpa using Statement.const line h⟩
    | ifWord => exact .consume hpeek (by simp) (readIf_sighted ih hfuel)
    | whileWord =>
      refine .consume hpeek (by simp) (.bind ((readCondition_sighted hfuel).mono fun _ h => ?_)
        fun cond _ test _ _ hcond htakes _ => ?_)
      · exact h.within [word .whileWord line] [sign .semicolon 1] (by simp)
          fun h => ⟨_, by simpa using statement_while line h (.empty 1)⟩
      · replace hcond := condition_of_read hcond htakes
        refine .returns ((ih.stmt hfuel).mono fun _ h => ?_) (fun _ _ => ⟨_, rfl⟩)
          fun _ _ => ⟨_, rfl⟩
        exact h.within (word .whileWord line :: test) [] (by simp)
          fun h => ⟨_, by simpa using statement_while line hcond h⟩
    | forWord =>
      refine .consume hpeek (by simp) (.bind ((readForHead_sighted hfuel).mono fun _ h => ?_)
        fun head _ front _ _ hread htakes _ => ?_)
      · exact h.within [word .forWord line] [sign .semicolon 1] (by simp)
          fun h => ⟨_, by simpa using Statement.forLoop line h (.empty 1)⟩
      · have hhead := htakes.phrase (readForHead_recognized hread)
        refine .returns ((ih.stmt hfuel).mono fun _ h => ?_) (fun _ _ => ⟨_, rfl⟩)
          fun _ _ => ⟨_, rfl⟩
        exact h.within (word .forWord line :: front) [] (by simp)
          fun h => ⟨_, by simpa using Statement.forLoop line hhead h⟩
    | breakWord =>
      exact .consume hpeek (by simp) (closeStmt_sighted
        (.of_append (.breakLoop line 1) _ rfl (by simp)))
    | continueWord =>
      exact .consume hpeek (by simp) (closeStmt_sighted
        (.of_append (.continueLoop line 1) _ rfl (by simp)))
    | returnWord =>
      exact .consume hpeek (by simp) (closeStmt_sighted
        (.of_append (.leave line 1) _ rfl (by simp)))
    | functionWord => exact sighted_error hpeek begins_statement rfl (.nestedFunction (.inl rfl))
    | inlineWord => exact sighted_error hpeek begins_statement rfl (.nestedFunction (.inr rfl))
    | _ => exact hsimple
  | _ => exact hsimple

end

/-- With any fuel, the readers of statements have one token of lookahead. -/
theorem stmtsSighted (fuel : Nat) : StmtsSighted fuel := by
  induction fuel with
  | zero =>
    exact {
      stmts := fun _ => sighted_outOfFuel begins_body
      stmt := fun _ => sighted_outOfFuel begins_statement }
  | succ fuel ih =>
    constructor
    case stmts =>
      intro fuel' taken taken' items others h
      obtain ⟨more, rfl, hle⟩ := exists_of_succ_le h
      exact readStmts_sighted ih hle
    case stmt =>
      intro fuel' items others h
      obtain ⟨more, rfl, hle⟩ := exists_of_succ_le h
      exact readStmt_sighted ih hle

/-! ## Functions -/

section

variable {fuel fuel' : Nat} {items others : List Item}

/-- Statements in braces. -/
def Block (lexemes : List Lexeme) (body : List Stmt) : Prop :=
  ∃ first rest, lexemes = sign .lbrace first :: rest ∧ Closed .rbrace Body rest body

theorem readBlock_sighted (hfuel : fuel ≤ fuel') :
    Sighted (Begins Block) unseen (readBlock fuel items) (readBlock fuel' others) items others := by
  have hbegins : Begins Block [] := .of_append ⟨1, _, rfl, [], 1, rfl, .nil⟩ _ rfl (by simp)
  rw [readBlock, readBlock]
  refine .look hbegins fun _ _ _ _ => .expectSign hbegins fun first _ _ _ => ?_
  refine .returns (((stmtsSighted fuel).stmts hfuel).mono fun _ h => ?_) (fun _ _ => ⟨_, rfl⟩)
    fun _ _ => ⟨_, rfl⟩
  exact h.within [sign .lbrace first] [] (by simp)
    fun h => ⟨_, first, _, rfl, by simpa using h⟩

theorem begins_function : Begins Function [] :=
  .of_append (.normal 1 (.mk "x" 1 1 1 1 1 .nil)) _ rfl (by simp)

/-- The words in front of a function's name. -/
theorem functionWord_sighted {token : Token} {line : Nat} (hpeek : peek items = .ok ⟨token, line⟩) :
    Sighted (Begins Function) id
      (expect (.keyword .functionWord) .functionWord
        (if token = .keyword .inlineWord then items.tail else items))
      (expect (.keyword .functionWord) .functionWord
        (if token = .keyword .inlineWord then others.tail else others)) items others := by
  by_cases hinline : token = .keyword .inlineWord
  · subst hinline
    simp only [if_true]
    exact .consume hpeek (by simp) (sighted_expect _ (by simp)
      (.of_append (.inlined line 1 (.mk "x" 1 1 1 1 1 .nil)) _ rfl (by simp)))
  · simp only [if_neg hinline]
    exact sighted_expect _ (by simp) begins_function

theorem exists_function_of_words {token : Token} {line : Nat} {u : Unit} {front : List Lexeme}
    {rest : List Item} (hpeek : peek items = .ok ⟨token, line⟩)
    (hread : expect (.keyword .functionWord) .functionWord
      (if token = .keyword .inlineWord then items.tail else items) = .ok (u, rest))
    (htakes : Takes front items rest) :
    ∃ kind place, ∀ {lexemes : List Lexeme} {routine : Routine},
      RoutineTail kind place lexemes routine → Function (front ++ lexemes) routine := by
  obtain ⟨second, hsecond⟩ := expect_ok (by simp) hread
  by_cases hinline : token = .keyword .inlineWord
  · subst hinline
    rw [if_pos rfl] at hsecond
    have hfront : front = [word .inlineWord line, word .functionWord second] :=
      htakes.eq_of_append (by rw [eq_cons_of_peek hpeek (by simp), hsecond]; rfl)
    exact ⟨.inlined, line, fun h => hfront ▸ .inlined line second h⟩
  · rw [if_neg hinline] at hsecond
    have hfront : front = [word .functionWord second] := htakes.eq_of_append hsecond
    exact ⟨.normal, second, fun h => hfront ▸ .normal second h⟩

theorem readRoutine_sighted (hfuel : fuel ≤ fuel') :
    Sighted (Begins Function) unseen (readRoutine fuel items) (readRoutine fuel' others)
      items others := by
  rw [readRoutine, readRoutine]
  refine .look begins_function fun token line _ hpeek => ?_
  refine .bind (functionWord_sighted hpeek) fun _ _ front _ _ hread htakes _ => ?_
  obtain ⟨kind, first, hfunction⟩ := exists_function_of_words hpeek hread htakes
  have hwithin : ∀ {more : List Lexeme}, Begins (RoutineTail kind first) more →
      Begins Function (front ++ more) := fun h =>
    h.within front [] (by simp) fun h => ⟨_, by simpa using hfunction h⟩
  refine .name (hwithin (.of_append (.mk "x" 1 1 1 1 1 .nil) _ rfl (by simp)))
    fun name place _ _ _ => ?_
  refine .expectSign (hwithin (.of_append (.mk name place 1 1 1 1 .nil) _ rfl (by simp)))
    fun opening _ _ _ => ?_
  refine .expect (by simp)
    (hwithin (.of_append (.mk name place opening 1 1 1 .nil) _ rfl (by simp)))
    fun closing _ _ _ => ?_
  refine .returns ((readBlock_sighted hfuel).mono fun _ h => hwithin ?_) (fun _ _ => ⟨_, rfl⟩)
    fun _ _ => ⟨_, rfl⟩
  refine h.within [⟨.ident name, place⟩, sign .lparen opening, sign .rparen closing] [] (by simp) ?_
  rintro _ body ⟨first, _, rfl, inner, last, rfl, hbody⟩
  exact ⟨_, by simpa using RoutineTail.mk name place opening closing first last hbody⟩

end

end RoomForge.Script.Grammar
