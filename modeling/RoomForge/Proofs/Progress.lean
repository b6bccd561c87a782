import RoomForge.Proofs.FirstOffense
import RoomForge.Proofs.Integers

set_option autoImplicit false

/-! # Readers advance and end

A reader that succeeds has taken at least one token off the items and left the end of the text where
it is. So the items that are left measure what is still to do: every call of a reader hands on fewer
items, or as many to a reader of a tighter kind, and with fuel for that measure no reader runs out
of it. More fuel then changes nothing, so that the fuel is no part of what is read:
`readers_advance_and_end` (specification, section 4.1).
-/

namespace RoomForge.Script

/-! ## More fuel -/

/-- A run that did not run out of fuel, and the same run with more of it. -/
def Lasts {α : Type} (run more : Except SyntaxError α) : Prop :=
  Avoids TooDeep run → more = run

section

variable {α β : Type} {items : List Item}

theorem Lasts.refl (run : Except SyntaxError α) : Lasts run run :=
  fun _ => rfl

theorem Lasts.bind {run more : Except SyntaxError α} {next next' : α → Except SyntaxError β}
    (h : Lasts run more) (hnext : ∀ value, Lasts (next value) (next' value)) :
    Lasts (run >>= next) (more >>= next') := by
  intro hall
  have hrun : Avoids TooDeep run := fun e he => hall e (bind_eq_error_iff.mpr (.inl he))
  rw [h hrun]
  cases run with
  | error e => rfl
  | ok value => exact hnext value hall

/-- What comes behind the same step. -/
theorem Lasts.next {run : Except SyntaxError α} {next next' : α → Except SyntaxError β}
    (hnext : ∀ value, Lasts (next value) (next' value)) : Lasts (run >>= next) (run >>= next') :=
  (Lasts.refl run).bind hnext

theorem bind_of_eq_error {first : Except SyntaxError α} {next : α → Except SyntaxError β}
    {e : SyntaxError} (h : first = .error e) : first >>= next = .error e :=
  bind_eq_error_iff.mpr (.inl h)

/-- Without fuel a run is spared only where the next item is a fault, which more fuel meets too. -/
theorem lasts_outOfFuel {more : Except SyntaxError (Parsed α)}
    (h : ∀ e, peek items = .error e → more = .error e) : Lasts (outOfFuel items) more := by
  intro hall
  cases hpeek : peek items with
  | error e => rw [h e hpeek, outOfFuel, bind_of_eq_error hpeek]
  | ok next =>
    rw [outOfFuel, bind_of_eq_ok hpeek] at hall
    exact absurd rfl (hall _ rfl)

end

namespace Grammar

/-! ### Expressions -/

/-- The readers of expressions read the same with more fuel, unless they run out of it. -/
structure ExprsLast (fuel : Nat) : Prop where
  binary : ∀ (level : Nat) (items : List Item),
    Lasts (readBinary fuel level items) (readBinary (fuel + 1) level items)
  operators : ∀ (level : Nat) (left : Expr) (items : List Item),
    Lasts (readOperators fuel level left items) (readOperators (fuel + 1) level left items)
  unary : ∀ items : List Item, Lasts (readUnary fuel items) (readUnary (fuel + 1) items)
  primary : ∀ items : List Item, Lasts (readPrimary fuel items) (readPrimary (fuel + 1) items)
  args : ∀ (taken : List Expr) (items : List Item),
    Lasts (readArgs fuel taken items) (readArgs (fuel + 1) taken items)

section

variable {fuel : Nat}

theorem readBinary_lasts (ih : ExprsLast fuel) (level : Nat) (items : List Item) :
    Lasts (readBinary (fuel + 1) level items) (readBinary (fuel + 2) level items) := by
  rw [readBinary, readBinary]
  exact (ih.unary items).bind fun read => ih.operators level read.1 read.2

theorem readOperators_lasts (ih : ExprsLast fuel) (level : Nat) (left : Expr)
    (items : List Item) :
    Lasts (readOperators (fuel + 1) level left items)
      (readOperators (fuel + 2) level left items) := by
  rw [readOperators, readOperators]
  refine .next fun next => ?_
  cases BinOp.ofToken? next.token with
  | none => exact .refl _
  | some op =>
    by_cases hlow : op.level < level
    · simp only [if_pos hlow]
      exact .refl _
    · simp only [if_neg hlow]
      exact (ih.binary _ _).bind fun read => ih.operators level _ _

theorem readUnary_lasts (ih : ExprsLast fuel) (items : List Item) :
    Lasts (readUnary (fuel + 1) items) (readUnary (fuel + 2) items) := by
  rw [readUnary, readUnary]
  refine .next fun next => ?_
  cases UnOp.ofToken? next.token with
  | none => exact ih.primary items
  | some op =>
    refine .next fun second => ?_
    dsimp only
    split
    · exact .refl _
    · exact (ih.unary _).bind fun read => .refl _

theorem readPrimary_lasts (ih : ExprsLast fuel) (items : List Item) :
    Lasts (readPrimary (fuel + 1) items) (readPrimary (fuel + 2) items) := by
  rw [readPrimary, readPrimary]
  refine .next fun next => ?_
  split
  · exact .refl _
  · exact .refl _
  · refine .next fun second => ?_
    split
    · refine .next fun third => ?_
      split
      · exact .refl _
      · exact (ih.args [] _).bind fun read => .refl _
    · exact .refl _
  · exact (ih.binary 1 _).bind fun read => .refl _
  · exact .refl _

theorem readArgs_lasts (ih : ExprsLast fuel) (taken : List Expr) (items : List Item) :
    Lasts (readArgs (fuel + 1) taken items) (readArgs (fuel + 2) taken items) := by
  rw [readArgs, readArgs]
  refine (ih.binary 1 items).bind fun read => .next fun next => ?_
  split
  · exact ih.args _ _
  · exact .refl _
  · exact .refl _

end

theorem exprsLast (fuel : Nat) : ExprsLast fuel := by
  induction fuel with
  | zero =>
    -- a binary expression or an argument starts with another reader, which looks at the item
    exact {
      binary := fun _ _ => lasts_outOfFuel fun _ h => bind_of_eq_error (bind_of_eq_error h)
      operators := fun _ _ _ => lasts_outOfFuel fun _ h => bind_of_eq_error h
      unary := fun _ => lasts_outOfFuel fun _ h => bind_of_eq_error h
      primary := fun _ => lasts_outOfFuel fun _ h => bind_of_eq_error h
      args := fun _ _ => lasts_outOfFuel fun _ h => bind_of_eq_error (bind_of_eq_error h) }
  | succ fuel ih =>
    exact {
      binary := readBinary_lasts ih
      operators := readOperators_lasts ih
      unary := readUnary_lasts ih
      primary := readPrimary_lasts ih
      args := readArgs_lasts ih }

/-! ### Statements -/

section

variable (fuel : Nat) (items : List Item)

theorem readExpr_lasts : Lasts (readExpr fuel items) (readExpr (fuel + 1) items) :=
  (exprsLast fuel).binary 1 items

theorem readCondition_lasts : Lasts (readCondition fuel items) (readCondition (fuel + 1) items) :=
  .next fun _ => (readExpr_lasts fuel _).bind fun _ => .refl _

theorem readSimple_lasts : Lasts (readSimple fuel items) (readSimple (fuel + 1) items) := by
  rw [readSimple, readSimple]
  refine .next fun first => ?_
  split
  · refine .next fun name => .next fun next => ?_
    split
    · exact (readExpr_lasts fuel _).bind fun _ => .refl _
    · exact .refl _
  · refine (readExpr_lasts fuel items).bind fun read => .next fun next => ?_
    split
    · split
      · exact (readExpr_lasts fuel _).bind fun _ => .refl _
      · exact .refl _
    · exact .refl _

theorem readUnless_lasts {α : Type} (stop : Token)
    {read more : List Item → Except SyntaxError (Parsed α)} (h : Lasts (read items) (more items)) :
    Lasts (readUnless stop read items) (readUnless stop more items) := by
  refine .next fun next => ?_
  split
  · exact .refl _
  · exact h.bind fun _ => .refl _

theorem readForHead_lasts : Lasts (readForHead fuel items) (readForHead (fuel + 1) items) := by
  refine .next fun _ => ?_
  refine (readUnless_lasts _ _ (readSimple_lasts fuel _)).bind fun _ => .next fun _ => ?_
  refine (readUnless_lasts _ _ (readExpr_lasts fuel _)).bind fun _ => .next fun _ => ?_
  exact (readUnless_lasts _ _ (readSimple_lasts fuel _)).bind fun _ => .refl _

end

/-- The readers of statements read the same with more fuel, unless they run out of it. -/
structure StmtsLast (fuel : Nat) : Prop where
  stmts : ∀ (taken : List Stmt) (items : List Item),
    Lasts (readStmts fuel taken items) (readStmts (fuel + 1) taken items)
  stmt : ∀ items : List Item, Lasts (readStmt fuel items) (readStmt (fuel + 1) items)

section

variable {fuel : Nat}

theorem readStmts_lasts (ih : StmtsLast fuel) (taken : List Stmt) (items : List Item) :
    Lasts (readStmts (fuel + 1) taken items) (readStmts (fuel + 2) taken items) := by
  rw [readStmts, readStmts]
  refine .next fun next => ?_
  split
  · exact .refl _
  · exact .refl _
  · exact (ih.stmt items).bind fun _ => ih.stmts _ _

theorem readStmt_lasts (ih : StmtsLast fuel) (items : List Item) :
    Lasts (readStmt (fuel + 1) items) (readStmt (fuel + 2) items) := by
  rw [readStmt, readStmt]
  refine .next fun first => ?_
  dsimp only
  split
  · exact (ih.stmts [] _).bind fun _ => .refl _
  · exact .refl _
  · exact .refl _
  · refine (readCondition_lasts fuel _).bind fun _ => (ih.stmt _).bind fun _ => .next fun _ => ?_
    split
    · exact (ih.stmt _).bind fun _ => .refl _
    · exact .refl _
  · exact (readCondition_lasts fuel _).bind fun _ => (ih.stmt _).bind fun _ => .refl _
  · exact (readForHead_lasts fuel _).bind fun _ => (ih.stmt _).bind fun _ => .refl _
  · exact .refl _
  · exact .refl _
  · exact .refl _
  · exact .refl _
  · exact .refl _
  · exact (readSimple_lasts fuel items).bind fun _ => .refl _

end

theorem stmtsLast (fuel : Nat) : StmtsLast fuel := by
  induction fuel with
  | zero =>
    exact {
      stmts := fun _ _ => lasts_outOfFuel fun _ h => bind_of_eq_error h
      stmt := fun _ => lasts_outOfFuel fun _ h => bind_of_eq_error h }
  | succ fuel ih =>
    exact {
      stmts := readStmts_lasts ih
      stmt := readStmt_lasts ih }

/-! ### Scripts -/

section

variable (fuel : Nat) (items : List Item)

theorem readBlock_lasts : Lasts (readBlock fuel items) (readBlock (fuel + 1) items) :=
  .next fun _ => .next fun _ => ((stmtsLast fuel).stmts [] _).bind fun _ => .refl _

theorem readRoutine_lasts : Lasts (readRoutine fuel items) (readRoutine (fuel + 1) items) :=
  .next fun _ => .next fun _ => .next fun _ => .next fun _ => .next fun _ =>
    (readBlock_lasts fuel _).bind fun _ => .refl _

end

theorem readScript_lasts (fuel : Nat) (constants : List Constant) (routines : List Routine)
    (items : List Item) :
    Lasts (readScript fuel constants routines items)
      (readScript (fuel + 1) constants routines items) := by
  induction fuel generalizing constants routines items with
  | zero =>
    intro hall
    cases hpeek : peek items with
    | error e =>
      rw [readScript, readScript, outOfFuel, bind_of_eq_error hpeek, bind_of_eq_error hpeek]
      rfl
    | ok next =>
      rw [readScript, outOfFuel, bind_of_eq_ok hpeek] at hall
      exact absurd rfl (hall _ rfl)
  | succ fuel ih =>
    rw [readScript, readScript]
    refine .next fun next => ?_
    split
    · exact .refl _
    · exact .next fun _ => ih _ _ _
    · exact (readRoutine_lasts fuel items).bind fun _ => ih _ _ _
    · exact (readRoutine_lasts fuel items).bind fun _ => ih _ _ _
    · exact .refl _

end Grammar

/-! ## Ends -/

/-- Fuel for four calls for each item that is left, and for `depth` calls more, suffices: with it no
run over items without a fault of fuel is cut short, and more fuel makes no difference. -/
def Ends {β : Type} (depth : Nat) (read : Nat → List Item → Except SyntaxError β) : Prop :=
  ∀ items, Shallow items → ∀ fuel, 4 * items.length + depth ≤ fuel →
    Avoids TooDeep (read fuel items) ∧ read fuel items = read (4 * items.length + depth) items

theorem ends_of_lasts {β : Type} {depth : Nat} {read : Nat → List Item → Except SyntaxError β}
    (hfuelled : ∀ fuel items, Shallow items → 4 * items.length + depth ≤ fuel →
      Avoids TooDeep (read fuel items))
    (hlasts : ∀ fuel items, Lasts (read fuel items) (read (fuel + 1) items)) : Ends depth read := by
  intro items hitems fuel hfuel
  refine ⟨hfuelled fuel items hitems hfuel, ?_⟩
  induction fuel, hfuel using Nat.le_induction with
  | base => rfl
  | succ fuel hfuel ih => exact (hlasts fuel items (hfuelled fuel items hitems hfuel)).trans ih

/-! ## Progress -/

/-- Where the reader succeeds it has taken at least one token, and neither a fault nor the end; the
integers in what it read are the values of numbers it has taken, or negatives of those. -/
def Advances {α : Type} (integers : α → List Int)
    (read : List Item → Except SyntaxError (Parsed α)) : Prop :=
  ∀ items tree rest, read items = .ok (tree, rest) → ∃ taken, taken ≠ [] ∧
    Takes taken items rest ∧ Grammar.Counted taken (integers tree)

namespace Grammar

/-- A reader that goes by the tokens it takes advances if its phrases are not empty. -/
theorem advances_of_phrase {α ν : Type} {integers : α → List Int}
    {read : List Item → Except SyntaxError (Parsed α)} {view : α → ν}
    {Viable : List Lexeme → Prop} {Phrase : List Lexeme → α → Prop} {property : Token → Prop}
    (hsighted : ∀ items, Sighted Viable view (read items) (read items) items items)
    (hopens : ∀ {items tree rest}, read items = .ok (tree, rest) → Opens Phrase items tree rest)
    (hstarts : ∀ {lexemes tree}, Phrase lexemes tree → StartsWith property lexemes)
    (hcounted : ∀ {lexemes tree}, Phrase lexemes tree → Counted lexemes (integers tree)) :
    Advances integers read := by
  intro items tree rest h
  obtain ⟨front, htakes, -⟩ := (hsighted items).kept tree rest h
  have hphrase := htakes.phrase (hopens h)
  exact ⟨front, List.ne_nil_of_length_pos (hstarts hphrase).length_pos, htakes, hcounted hphrase⟩

/-- Above the levels of all operators, none is read. -/
theorem readBinary_of_operandLevel_le (fuel : Nat) {level : Nat} (h : operandLevel ≤ level)
    (items : List Item) : readBinary fuel level items = readBinary fuel operandLevel items := by
  have hoperators : ∀ (fuel : Nat) (left : Expr) (items : List Item),
      readOperators fuel level left items = readOperators fuel operandLevel left items := by
    intro fuel left items
    cases fuel with
    | zero => rw [readOperators, readOperators]
    | succ fuel =>
      have hlow := fun op : BinOp => level_lt_operandLevel op
      have hlow' := fun op : BinOp => Nat.lt_of_lt_of_le (hlow op) h
      rw [readOperators, readOperators]
      simp only [hlow, hlow', if_true]
  cases fuel with
  | zero => rw [readBinary, readBinary]
  | succ fuel =>
    rw [readBinary, readBinary]
    simp only [hoperators]

theorem readBlock_recognized {fuel : Nat} {items rest : List Item} {stmt : Stmt}
    (h : readBlock fuel items = .ok (stmt, rest)) : Opens Statement items stmt rest := by
  simp only [readBlock, bind_eq_ok_iff, Prod.exists] at h
  obtain ⟨⟨token, line⟩, hpeek, _, _, hopening, body, _, hbody, hresult⟩ := h
  obtain ⟨rfl, rfl⟩ := Prod.mk.inj (Except.ok.inj hresult)
  obtain ⟨first, rfl⟩ := expectSign_ok hopening
  obtain rfl : first = line := congrArg Lexeme.line (Except.ok.inj hpeek)
  obtain ⟨stmts, last, rfl, inner, rfl, hinner⟩ := (stmtsRecognized fuel).stmts hbody
  exact ⟨_, by simp, .block first last hinner⟩

theorem ConstantTail.starts {lexemes : List Lexeme} {constant : Constant}
    (h : ConstantTail lexemes constant) : StartsWith (fun _ => True) lexemes := by
  cases h <;> exact ⟨_, _, rfl, trivial⟩

theorem readBinary_advances (fuel level : Nat) :
    Advances Expr.integers (readBinary fuel level) := by
  have hlow : ∀ {level : Nat}, level ≤ operandLevel →
      Advances Expr.integers (readBinary fuel level) := fun hle =>
    advances_of_phrase (fun _ => (exprsSighted fuel).binary (Nat.le_refl _))
      (fun h => ((exprsRecognized fuel).binary hle h).1) Binary.starts Binary.counted
  rcases Nat.le_total level operandLevel with hle | hle
  · exact hlow hle
  · rw [funext (readBinary_of_operandLevel_le fuel hle)]
    exact hlow (Nat.le_refl _)

theorem readBinary_ends (level : Nat) : Ends 3 (readBinary · level) := by
  refine ends_of_lasts (fun fuel items hitems hfuel => ?_) fun fuel => (exprsLast fuel).binary level
  cases fuel with
  | zero => omega
  | succ fuel => exact readBinary_fuelled (exprsFuelled fuel) hitems hfuel

end Grammar

/-- A number of a text can be negated as a signed word of 32 bits. -/
theorem toInt_neg_of_number {source : String} {value line : Nat}
    (h : .ok ⟨.number value, line⟩ ∈ items source) :
    value < 2 ^ 31 ∧ (-Int32.ofNat value).toInt = -(value : Int) := by
  have hvalue : value < 2 ^ 31 := writable_of_mem_items h (by simp)
  refine ⟨hvalue, ?_⟩
  have hword : (Int32.ofNat value).toInt = value := Int32.toInt_ofNat_of_lt hvalue
  rw [Int32.toInt_neg, hword]
  exact Int.bmod_eq_of_le (by omega) (by omega)

open Grammar in
/-- Whatever reads a part of a script takes at least one token when it succeeds, and never the end;
its integers are numbers it has taken, or negatives of such. Every reader ends, its loops included:
the depth of its calls is bounded by the number of items that are left, whatever the items are. And
all numbers of a text can be negated without an overflow. -/
theorem readers_advance_and_end :
    ((∀ fuel level, Advances Expr.integers (readBinary fuel level)) ∧
      (∀ fuel, Advances Expr.integers (readUnary fuel)) ∧
      (∀ fuel, Advances Expr.integers (readPrimary fuel)) ∧
      (∀ fuel, Advances Stmt.integers (readSimple fuel)) ∧
      (∀ fuel, Advances Stmt.integers (readStmt fuel)) ∧
      (∀ fuel, Advances Stmt.integers (readBlock fuel)) ∧
      Advances (fun constant => [constant.value]) readConstant ∧
      (∀ fuel, Advances (fun routine => routine.body.integers) (readRoutine fuel))) ∧
    ((∀ level, Ends 3 (readBinary · level)) ∧
      (∀ level left, Ends 1 (readOperators · level left)) ∧
      Ends 2 readUnary ∧ Ends 1 readPrimary ∧ (∀ taken, Ends 4 (readArgs · taken)) ∧
      Ends 3 readSimple ∧ (∀ taken, Ends 5 (readStmts · taken)) ∧ Ends 4 readStmt ∧
      Ends 5 readBlock ∧ Ends 5 readRoutine ∧
      (∀ constants routines, Ends 6 (readScript · constants routines))) ∧
    ∀ source : String, Shallow (items source) ∧ Avoids TooDeep (parse source) ∧
      (∀ fuel, parseFuel (items source).length ≤ fuel →
        readScript fuel [] [] (items source) = parse source) ∧
      ∀ value line, .ok ⟨.number value, line⟩ ∈ items source →
        value < 2 ^ 31 ∧ (-Int32.ofNat value).toInt = -(value : Int) := by
  have hends : ∀ constants routines, Ends 6 (readScript · constants routines) :=
    fun constants routines => ends_of_lasts
      (fun _ _ hitems => readScript_fuelled ⟨hitems, Nat.le_refl _⟩)
      fun fuel => readScript_lasts fuel constants routines
  have hparse : ∀ source, Avoids TooDeep (parse source) ∧
      parse source = readScript (4 * (items source).length + 6) [] [] (items source) :=
    fun source => hends [] [] _ (shallow_items source) _ (by rw [parseFuel]; omega)
  refine ⟨⟨readBinary_advances, fun fuel => ?_, fun fuel => ?_, fun fuel => ?_, fun fuel => ?_,
    fun fuel => ?_, ?_, fun fuel => ?_⟩, ⟨readBinary_ends, fun level left => ?_, ?_, ?_,
    fun taken => ?_, ?_, fun taken => ?_, ?_, ?_, ?_, hends⟩, fun source =>
      ⟨shallow_items source, ?_, fun fuel hfuel => ?_, fun _ _ => toInt_neg_of_number⟩⟩
  · exact advances_of_phrase (fun _ => (exprsSighted fuel).unary (Nat.le_refl _))
      (exprsRecognized fuel).unary Unary.starts Unary.counted
  · exact advances_of_phrase (fun _ => (exprsSighted fuel).primary (Nat.le_refl _))
      (exprsRecognized fuel).primary Primary.starts Primary.counted
  · exact advances_of_phrase (fun _ => readSimple_sighted (Nat.le_refl _)) readSimple_recognized
      Simple.starts Simple.counted
  · exact advances_of_phrase (fun _ => (stmtsSighted fuel).stmt (Nat.le_refl _))
      (fun h => ((stmtsRecognized fuel).stmt h).1) Statement.starts Statement.counted
  · exact advances_of_phrase (fun _ => readBlock_sighted (Nat.le_refl _)) readBlock_recognized
      Statement.starts Statement.counted
  · exact advances_of_phrase (fun _ => readConstant_sighted) readConstant_recognized
      ConstantTail.starts ConstantTail.counted
  · exact advances_of_phrase (fun _ => readRoutine_sighted (Nat.le_refl _)) readRoutine_recognized
      Function.starts Function.counted
  · exact ends_of_lasts (fun fuel _ => (exprsFuelled fuel).operators)
      fun fuel => (exprsLast fuel).operators level left
  · exact ends_of_lasts (fun fuel _ => (exprsFuelled fuel).unary) fun fuel => (exprsLast fuel).unary
  · exact ends_of_lasts (fun fuel _ => (exprsFuelled fuel).primary)
      fun fuel => (exprsLast fuel).primary
  · exact ends_of_lasts (fun fuel _ => (exprsFuelled fuel).args)
      fun fuel => (exprsLast fuel).args taken
  · exact ends_of_lasts (fun _ _ hitems => readSimple_fuelled ⟨hitems, Nat.le_refl _⟩)
      readSimple_lasts
  · exact ends_of_lasts (fun fuel _ hitems => (stmtsFuelled fuel).stmts ⟨hitems, Nat.le_refl _⟩)
      fun fuel => (stmtsLast fuel).stmts taken
  · exact ends_of_lasts (fun fuel _ hitems => (stmtsFuelled fuel).stmt ⟨hitems, Nat.le_refl _⟩)
      fun fuel => (stmtsLast fuel).stmt
  · exact ends_of_lasts (fun _ _ hitems => readBlock_fuelled ⟨hitems, Nat.le_refl _⟩)
      readBlock_lasts
  · exact ends_of_lasts (fun _ _ hitems => readRoutine_fuelled ⟨hitems, Nat.le_refl _⟩)
      readRoutine_lasts
  · exact (hparse source).1
  · rw [parseFuel] at hfuel
    exact (hends [] [] _ (shallow_items source) fuel (by omega)).2.trans (hparse source).2.symm

end RoomForge.Script
