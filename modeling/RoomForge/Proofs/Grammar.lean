import RoomForge.Script.Parser

set_option autoImplicit false

/-! # The grammar of scripts

The grammar of section 4.1 of the specification, without a reader: what a row of tokens says. Each
relation lists the forms of one kind of phrase and the tree that each form stands for. Binary
operators bind by levels and associate to the left, a minus sign right before a number belongs to
the number, and an `else` belongs to the nearest `if`, so that a row of tokens stands for at most
one tree. Statements and functions carry the line of their first token.

The section lists operators without their levels and says nothing of two `if` with one `else`. Both
are settled here as the parser settles them, in relations that mention no reader.
-/

namespace RoomForge.Script.Grammar

/-- A sign on a line. -/
abbrev sign (sign : Punct) (line : Nat) : Lexeme := ⟨.punct sign, line⟩

/-- A reserved word on a line. -/
abbrev word (word : Keyword) (line : Nat) : Lexeme := ⟨.keyword word, line⟩

/-- The line of the first token. -/
def lineOf (lexemes : List Lexeme) : Nat :=
  (lexemes.head?.map Lexeme.line).getD 1

/-! ## Expressions -/

/-- The signs of binary operators, by level; a higher level binds tighter. -/
inductive Operator : (level : Nat) → Punct → BinOp → Prop where
  | or : Operator 1 .orOr .or
  | and : Operator 2 .andAnd .and
  | eq : Operator 3 .eqEq .eq
  | ne : Operator 3 .notEq .ne
  | lt : Operator 4 .lt .lt
  | le : Operator 4 .le .le
  | gt : Operator 4 .gt .gt
  | ge : Operator 4 .ge .ge
  | add : Operator 5 .plus .add
  | sub : Operator 5 .minus .sub
  | mul : Operator 6 .star .mul
  | div : Operator 6 .slash .div
  | mod : Operator 6 .percent .mod

/-- The level of what stands between binary operators. -/
def operandLevel : Nat := 7

mutual

/-- A literal, a name, a call, or an expression in parentheses. -/
inductive Primary : List Lexeme → Expr → Prop where
  | int (value line : Nat) : Primary [⟨.number value, line⟩] (.int value)
  | str (text : String) (line : Nat) : Primary [⟨.str text, line⟩] (.str text)
  | ident (name : String) (line : Nat) : Primary [⟨.ident name, line⟩] (.ident name)
  | callNone (name : String) (line opening closing : Nat) :
      Primary [⟨.ident name, line⟩, sign .lparen opening, sign .rparen closing] (.call name [])
  | call (name : String) (line opening closing : Nat) {inner : List Lexeme} {args : List Expr}
      (hargs : Args inner args) :
      Primary (⟨.ident name, line⟩ :: sign .lparen opening :: (inner ++ [sign .rparen closing]))
        (.call name args)
  | paren (opening closing : Nat) {inner : List Lexeme} {expr : Expr}
      (hinner : Binary 1 inner expr) :
      Primary (sign .lparen opening :: (inner ++ [sign .rparen closing])) expr

/-- At least one argument of a call, with a comma between any two. -/
inductive Args : List Lexeme → List Expr → Prop where
  | last {lexemes : List Lexeme} {arg : Expr} (harg : Binary 1 lexemes arg) : Args lexemes [arg]
  | more (comma : Nat) {first rest : List Lexeme} {arg : Expr} {args : List Expr}
      (harg : Binary 1 first arg) (hrest : Args rest args) :
      Args (first ++ sign .comma comma :: rest) (arg :: args)

/-- An operand with the operators before it. -/
inductive Unary : List Lexeme → Expr → Prop where
  | primary {lexemes : List Lexeme} {expr : Expr} (h : Primary lexemes expr) : Unary lexemes expr
  /-- A minus sign and a number make one literal. -/
  | negative (value minus line : Nat) :
      Unary [sign .minus minus, ⟨.number value, line⟩] (.int (-(value : Int)))
  | neg (line : Nat) {lexemes : List Lexeme} {expr : Expr} (h : Unary lexemes expr)
      (hnumber : ∀ value, lexemes.head?.map Lexeme.token ≠ some (.number value)) :
      Unary (sign .minus line :: lexemes) (.unary .neg expr)
  | not (line : Nat) {lexemes : List Lexeme} {expr : Expr} (h : Unary lexemes expr) :
      Unary (sign .bang line :: lexemes) (.unary .not expr)

/-- Operands between operators of at least a level. The right operand of an operator binds tighter
than the operator, the left one as tightly. -/
inductive Binary : (level : Nat) → List Lexeme → Expr → Prop where
  | operand {lexemes : List Lexeme} {expr : Expr} (h : Unary lexemes expr) :
      Binary operandLevel lexemes expr
  | tighter {level : Nat} {lexemes : List Lexeme} {expr : Expr}
      (h : Binary (level + 1) lexemes expr) : Binary level lexemes expr
  | apply {level : Nat} {punct : Punct} {op : BinOp} (line : Nat) {left right : List Lexeme}
      {leftExpr rightExpr : Expr} (hop : Operator level punct op)
      (hleft : Binary level left leftExpr) (hright : Binary (level + 1) right rightExpr) :
      Binary level (left ++ sign punct line :: right) (.binary op leftExpr rightExpr)

end

/-- An expression. -/
abbrev Expression : List Lexeme → Expr → Prop :=
  Binary 1

/-! ## Statements -/

/-- A phrase that may be missing. -/
inductive Optional {α : Type} (Phrase : List Lexeme → α → Prop) :
    List Lexeme → Option α → Prop where
  | none : Optional Phrase [] none
  | some {lexemes : List Lexeme} {tree : α} (h : Phrase lexemes tree) :
      Optional Phrase lexemes (some tree)

/-- A constant's name and value, behind its keyword. -/
inductive ConstantTail : List Lexeme → Constant → Prop where
  | positive (name : String) (value first assign number last : Nat) :
      ConstantTail [⟨.ident name, first⟩, sign .assign assign, ⟨.number value, number⟩,
        sign .semicolon last] ⟨name, value⟩
  | negative (name : String) (value first assign minus number last : Nat) :
      ConstantTail [⟨.ident name, first⟩, sign .assign assign, sign .minus minus,
        ⟨.number value, number⟩, sign .semicolon last] ⟨name, -(value : Int)⟩

/-- The target of an assignment: a name, in any number of parentheses. -/
inductive Target : List Lexeme → String → Prop where
  | ident (name : String) (line : Nat) : Target [⟨.ident name, line⟩] name
  | paren (opening closing : Nat) {inner : List Lexeme} {name : String} (h : Target inner name) :
      Target (sign .lparen opening :: (inner ++ [sign .rparen closing])) name

/-- A variable, an assignment or an expression, without a semicolon. -/
inductive Simple : List Lexeme → Stmt → Prop where
  | var (name : String) (line place : Nat) :
      Simple [word .varWord line, ⟨.ident name, place⟩] (.var line name none)
  | varInit (name : String) (line place assign : Nat) {value : List Lexeme} {init : Expr}
      (hinit : Expression value init) :
      Simple (word .varWord line :: ⟨.ident name, place⟩ :: sign .assign assign :: value)
        (.var line name (some init))
  | assign (line : Nat) {target value : List Lexeme} {name : String} {expr : Expr}
      (htarget : Target target name) (hvalue : Expression value expr) :
      Simple (target ++ sign .assign line :: value) (.assign (lineOf target) name expr)
  | eval {lexemes : List Lexeme} {expr : Expr} (h : Expression lexemes expr) :
      Simple lexemes (.eval (lineOf lexemes) expr)

/-- The head of a `for`, behind its keyword. -/
inductive Head : List Lexeme → ForHead → Prop where
  | mk (opening first second closing : Nat) {start test after : List Lexeme}
      {init step : Option Stmt} {cond : Option Expr} (hinit : Optional Simple start init)
      (hcond : Optional Expression test cond) (hstep : Optional Simple after step) :
      Head (sign .lparen opening :: (start ++ sign .semicolon first ::
        (test ++ sign .semicolon second :: (after ++ [sign .rparen closing])))) ⟨init, cond, step⟩

end Grammar

/-- A statement ends with an `if` that could still have an `else`. -/
def Stmt.EndsOpen : Stmt → Prop
  | .ifElse _ _ _ none => True
  | .ifElse _ _ _ (some no) => no.EndsOpen
  | .whileLoop _ _ body | .forLoop _ _ _ _ body => body.EndsOpen
  | _ => False

namespace Grammar

mutual

/-- A statement. -/
inductive Statement : List Lexeme → Stmt → Prop where
  | block (line closing : Nat) {inner : List Lexeme} {body : List Stmt} (h : Body inner body) :
      Statement (sign .lbrace line :: (inner ++ [sign .rbrace closing])) (.block line body)
  | empty (line : Nat) : Statement [sign .semicolon line] (.block line [])
  | const (line : Nat) {lexemes : List Lexeme} {constant : Constant}
      (h : ConstantTail lexemes constant) :
      Statement (word .constWord line :: lexemes) (.const line constant.name constant.value)
  | ifThen (line opening closing : Nat) {test yes : List Lexeme} {cond : Expr} {yesStmt : Stmt}
      (hcond : Expression test cond) (hyes : Statement yes yesStmt) :
      Statement
        (word .ifWord line :: sign .lparen opening :: (test ++ sign .rparen closing :: yes))
        (.ifElse line cond yesStmt none)
  /-- The `else` is not one that an `if` inside of `yes` could have. -/
  | ifElse (line opening closing middle : Nat) {test yes no : List Lexeme} {cond : Expr}
      {yesStmt noStmt : Stmt} (hcond : Expression test cond) (hyes : Statement yes yesStmt)
      (hclosed : ¬ yesStmt.EndsOpen) (hno : Statement no noStmt) :
      Statement
        (word .ifWord line :: sign .lparen opening ::
          (test ++ sign .rparen closing :: (yes ++ word .elseWord middle :: no)))
        (.ifElse line cond yesStmt (some noStmt))
  | whileLoop (line opening closing : Nat) {test lexemes : List Lexeme} {cond : Expr} {body : Stmt}
      (hcond : Expression test cond) (hbody : Statement lexemes body) :
      Statement
        (word .whileWord line :: sign .lparen opening :: (test ++ sign .rparen closing :: lexemes))
        (.whileLoop line cond body)
  | forLoop (line : Nat) {front lexemes : List Lexeme} {head : ForHead} {body : Stmt}
      (hhead : Head front head) (hbody : Statement lexemes body) :
      Statement (word .forWord line :: (front ++ lexemes))
        (.forLoop line head.init head.cond head.step body)
  | breakLoop (line last : Nat) :
      Statement [word .breakWord line, sign .semicolon last] (.breakLoop line)
  | continueLoop (line last : Nat) :
      Statement [word .continueWord line, sign .semicolon last] (.continueLoop line)
  | leave (line last : Nat) : Statement [word .returnWord line, sign .semicolon last] (.leave line)
  | simple (last : Nat) {lexemes : List Lexeme} {stmt : Stmt} (h : Simple lexemes stmt) :
      Statement (lexemes ++ [sign .semicolon last]) stmt

/-- Statements in a row. -/
inductive Body : List Lexeme → List Stmt → Prop where
  | nil : Body [] []
  | cons {first rest : List Lexeme} {stmt : Stmt} {stmts : List Stmt}
      (hfirst : Statement first stmt) (hrest : Body rest stmts) :
      Body (first ++ rest) (stmt :: stmts)

end

/-! ## Scripts -/

/-- A function behind the word `function`, with `line` as its line. -/
inductive RoutineTail (kind : RoutineKind) (line : Nat) : List Lexeme → Routine → Prop where
  | mk (name : String) (place opening closing first last : Nat) {inner : List Lexeme}
      {body : List Stmt} (h : Body inner body) :
      RoutineTail kind line
        (⟨.ident name, place⟩ :: sign .lparen opening :: sign .rparen closing ::
          sign .lbrace first :: (inner ++ [sign .rbrace last]))
        { name, kind, body := .block first body, line }

/-- A function. -/
inductive Function : List Lexeme → Routine → Prop where
  | normal (line : Nat) {lexemes : List Lexeme} {routine : Routine}
      (h : RoutineTail .normal line lexemes routine) :
      Function (word .functionWord line :: lexemes) routine
  | inlined (line second : Nat) {lexemes : List Lexeme} {routine : Routine}
      (h : RoutineTail .inlined line lexemes routine) :
      Function (word .inlineWord line :: word .functionWord second :: lexemes) routine

/-- A whole script: constants and functions up to the end of the text. -/
inductive Whole : List Lexeme → Declarations → Prop where
  | eof (line : Nat) : Whole [⟨.eof, line⟩] {}
  | const (line : Nat) {lexemes rest : List Lexeme} {constant : Constant} {script : Declarations}
      (h : ConstantTail lexemes constant) (hrest : Whole rest script) :
      Whole (word .constWord line :: (lexemes ++ rest))
        { script with constants := constant :: script.constants }
  | routine {lexemes rest : List Lexeme} {routine : Routine} {script : Declarations}
      (h : Function lexemes routine) (hrest : Whole rest script) :
      Whole (lexemes ++ rest) { script with routines := routine :: script.routines }

/-! ## First tokens -/

/-- A token that an expression can start with. -/
def StartsExpr : Token → Prop
  | .number _ | .str _ | .ident _ | .punct .lparen | .punct .minus | .punct .bang => True
  | _ => False

/-- The first token is one with the property. -/
def StartsWith (property : Token → Prop) (lexemes : List Lexeme) : Prop :=
  ∃ first rest, lexemes = first :: rest ∧ property first.token

theorem StartsWith.append {property : Token → Prop} {lexemes : List Lexeme}
    (h : StartsWith property lexemes) (behind : List Lexeme) :
    StartsWith property (lexemes ++ behind) := by
  obtain ⟨first, rest, rfl, hfirst⟩ := h
  exact ⟨first, rest ++ behind, rfl, hfirst⟩

theorem StartsWith.imp {property other : Token → Prop} {lexemes : List Lexeme}
    (h : StartsWith property lexemes) (himp : ∀ token, property token → other token) :
    StartsWith other lexemes := by
  obtain ⟨first, rest, rfl, hfirst⟩ := h
  exact ⟨first, rest, rfl, himp _ hfirst⟩

theorem Primary.starts {lexemes : List Lexeme} {expr : Expr} (h : Primary lexemes expr) :
    StartsWith StartsExpr lexemes := by
  cases h with
  | _ => exact ⟨_, _, rfl, trivial⟩

theorem Unary.starts {lexemes : List Lexeme} {expr : Expr} (h : Unary lexemes expr) :
    StartsWith StartsExpr lexemes := by
  cases h with
  | primary h => exact h.starts
  | _ => exact ⟨_, _, rfl, trivial⟩

theorem Binary.starts {level : Nat} {lexemes : List Lexeme} {expr : Expr} :
    Binary level lexemes expr → StartsWith StartsExpr lexemes
  | .operand h => h.starts
  | .tighter h => h.starts
  | .apply _ _ hleft _ => hleft.starts.append _

/-- What binds tightly stands wherever looser expressions do. -/
theorem Binary.loosen {inner outer : Nat} {lexemes : List Lexeme} {expr : Expr}
    (h : Binary inner lexemes expr) (hle : outer ≤ inner) : Binary outer lexemes expr := by
  induction inner with
  | zero =>
    obtain rfl := Nat.le_zero.mp hle
    exact h
  | succ inner ih =>
    rcases Nat.le_succ_iff.mp hle with hlow | rfl
    · exact ih h.tighter hlow
    · exact h

/-! ## Targets of assignments -/

theorem Target.expression {lexemes : List Lexeme} {name : String} (h : Target lexemes name) :
    Expression lexemes (.ident name) := by
  induction h with
  | ident name line =>
    exact (Binary.operand (.primary (.ident name line))).loosen (by decide)
  | paren opening closing _ ih =>
    exact (Binary.operand (.primary (.paren opening closing ih))).loosen (by decide)

mutual

theorem Primary.target {lexemes : List Lexeme} {expr : Expr} {name : String}
    (hname : expr = .ident name) : Primary lexemes expr → Target lexemes name
  | .ident found line => by
    obtain rfl := Expr.ident.inj hname
    exact .ident found line
  | .paren opening closing h => .paren opening closing (h.target hname)
  | .int .. | .str .. | .callNone .. | .call .. => by cases hname

theorem Unary.target {lexemes : List Lexeme} {expr : Expr} {name : String}
    (hname : expr = .ident name) : Unary lexemes expr → Target lexemes name
  | .primary h => h.target hname
  | .negative .. | .neg .. | .not .. => by cases hname

/-- Only a name in parentheses stands for a name. -/
theorem Binary.target {level : Nat} {lexemes : List Lexeme} {expr : Expr} {name : String}
    (hname : expr = .ident name) : Binary level lexemes expr → Target lexemes name
  | .operand h => h.target hname
  | .tighter h => h.target hname
  | .apply .. => by cases hname

end

end RoomForge.Script.Grammar
