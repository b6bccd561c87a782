import RoomForge.Proofs.Decoding
import RoomForge.Proofs.Mentions
import RoomForge.Proofs.Parsing

set_option autoImplicit false

/-! # String literals

A text that compiled code pushes is a string literal of the compiled function or of an inlined one,
and a literal is made of characters of the script's text, but for line breaks that are escaped
(specification, section 4.1).

The encoding ends a pushed text with a zero byte (table of section 4.3) and the lexer takes the
character zero as any other, so not all code can be read back. It can if and only if no text that it
pushes holds the character zero, and such a text only comes from a script that holds the character:
`compiled_bytes_read_back_without_zero`. `split_text_reads_back_as_two` is a script of that kind.
-/

namespace RoomForge.Script

/-! ## Literals are tokens -/

namespace Grammar

/-- The tokens hold a string. -/
def HasText (lexemes : List Lexeme) (text : String) : Prop :=
  ∃ line, ⟨.str text, line⟩ ∈ lexemes

theorem HasText.mono {lexemes more : List Lexeme} {text : String} (h : HasText lexemes text)
    (hsub : ∀ lexeme ∈ lexemes, lexeme ∈ more) : HasText more text := by
  obtain ⟨line, hmem⟩ := h
  exact ⟨line, hsub _ hmem⟩

mutual

theorem Primary.hasText {lexemes : List Lexeme} {expr : Expr} {text : String} :
    Primary lexemes expr → text ∈ expr.literals → HasText lexemes text
  | .str found line, htext => by
    obtain rfl := List.mem_singleton.mp htext
    exact ⟨line, List.mem_singleton.mpr rfl⟩
  | .call _ _ _ _ hargs, htext => (hargs.hasText htext).mono fun _ hmem => by simp [hmem]
  | .paren _ _ hinner, htext => (hinner.hasText htext).mono fun _ hmem => by simp [hmem]
  | .int .., htext | .ident .., htext | .callNone .., htext => absurd htext List.not_mem_nil

theorem Args.hasText {lexemes : List Lexeme} {args : List Expr} {text : String} :
    Args lexemes args → text ∈ Expr.literalsOf args → HasText lexemes text
  | .last harg, htext => by
    rw [Expr.literalsOf, Expr.literalsOf, List.append_nil] at htext
    exact harg.hasText htext
  | .more _ harg hrest, htext => by
    rcases List.mem_append.mp htext with hfirst | hothers
    · exact (harg.hasText hfirst).mono fun _ hmem => by simp [hmem]
    · exact (hrest.hasText hothers).mono fun _ hmem => by simp [hmem]

theorem Unary.hasText {lexemes : List Lexeme} {expr : Expr} {text : String} :
    Unary lexemes expr → text ∈ expr.literals → HasText lexemes text
  | .primary h, htext => h.hasText htext
  | .negative .., htext => absurd htext List.not_mem_nil
  | .neg _ h _, htext => (h.hasText htext).mono fun _ hmem => by simp [hmem]
  | .not _ h, htext => (h.hasText htext).mono fun _ hmem => by simp [hmem]

theorem Binary.hasText {level : Nat} {lexemes : List Lexeme} {expr : Expr} {text : String} :
    Binary level lexemes expr → text ∈ expr.literals → HasText lexemes text
  | .operand h, htext => h.hasText htext
  | .tighter h, htext => h.hasText htext
  | .apply _ _ hleft hright, htext => by
    rcases List.mem_append.mp htext with hfirst | hsecond
    · exact (hleft.hasText hfirst).mono fun _ hmem => by simp [hmem]
    · exact (hright.hasText hsecond).mono fun _ hmem => by simp [hmem]

end

theorem Simple.hasText {lexemes : List Lexeme} {stmt : Stmt} {text : String}
    (h : Simple lexemes stmt) (htext : text ∈ stmt.literals) : HasText lexemes text := by
  cases h with
  | var => exact absurd htext List.not_mem_nil
  | varInit name line place assign hinit =>
    simp only [Stmt.literals, Option.toList_some, Expr.literalsOf, List.append_nil] at htext
    exact (hinit.hasText htext).mono fun _ hmem => by simp [hmem]
  | assign line htarget hvalue => exact (hvalue.hasText htext).mono fun _ hmem => by simp [hmem]
  | eval h => exact h.hasText htext

theorem Optional.hasText {lexemes : List Lexeme} {stmt : Option Stmt} {text : String}
    (h : Optional Simple lexemes stmt) (htext : text ∈ Stmt.literals? stmt) :
    HasText lexemes text := by
  cases h with
  | none => exact absurd htext List.not_mem_nil
  | some h => exact h.hasText htext

theorem Head.hasText {lexemes : List Lexeme} {head : ForHead} {text : String}
    (h : Head lexemes head)
    (htext : text ∈ Stmt.literals? head.init ++ Expr.literalsOf head.cond.toList ++
      Stmt.literals? head.step) : HasText lexemes text := by
  obtain ⟨opening, first, second, closing, hinit, hcond, hstep⟩ := h
  simp only [List.mem_append] at htext
  rcases htext with (htext | htext) | htext
  · exact (hinit.hasText htext).mono fun _ hmem => by simp [hmem]
  · cases hcond with
    | none => exact absurd htext List.not_mem_nil
    | some hcond =>
      simp only [Option.toList_some, Expr.literalsOf, List.append_nil] at htext
      exact (hcond.hasText htext).mono fun _ hmem => by simp [hmem]
  · exact (hstep.hasText htext).mono fun _ hmem => by simp [hmem]

mutual

theorem Statement.hasText {lexemes : List Lexeme} {stmt : Stmt} {text : String} :
    Statement lexemes stmt → text ∈ stmt.literals → HasText lexemes text
  | .block _ _ hbody, htext => (hbody.hasText htext).mono fun _ hmem => by simp [hmem]
  | .ifThen _ _ _ hcond hyes, htext => by
    simp only [Stmt.literals, Stmt.literals?, List.append_nil, List.mem_append] at htext
    rcases htext with htext | htext
    · exact (hcond.hasText htext).mono fun _ hmem => by simp [hmem]
    · exact (hyes.hasText htext).mono fun _ hmem => by simp [hmem]
  | .ifElse _ _ _ _ hcond hyes _ hno, htext => by
    simp only [Stmt.literals, Stmt.literals?, List.mem_append] at htext
    rcases htext with (htext | htext) | htext
    · exact (hcond.hasText htext).mono fun _ hmem => by simp [hmem]
    · exact (hyes.hasText htext).mono fun _ hmem => by simp [hmem]
    · exact (hno.hasText htext).mono fun _ hmem => by simp [hmem]
  | .whileLoop _ _ _ hcond hbody, htext => by
    rcases List.mem_append.mp htext with htext | htext
    · exact (hcond.hasText htext).mono fun _ hmem => by simp [hmem]
    · exact (hbody.hasText htext).mono fun _ hmem => by simp [hmem]
  | .forLoop _ hhead hbody, htext => by
    rcases List.mem_append.mp htext with htext | htext
    · exact (hhead.hasText htext).mono fun _ hmem => by simp [hmem]
    · exact (hbody.hasText htext).mono fun _ hmem => by simp [hmem]
  | .simple _ h, htext => (h.hasText htext).mono fun _ hmem => by simp [hmem]
  | .empty _, htext | .const _ _, htext | .breakLoop .., htext | .continueLoop .., htext
  | .leave .., htext => absurd htext List.not_mem_nil

theorem Body.hasText {lexemes : List Lexeme} {body : List Stmt} {text : String} :
    Body lexemes body → text ∈ Stmt.literalsOf body → HasText lexemes text
  | .nil, htext => absurd htext List.not_mem_nil
  | .cons hfirst hrest, htext => by
    rcases List.mem_append.mp htext with htext | htext
    · exact (hfirst.hasText htext).mono fun _ hmem => by simp [hmem]
    · exact (hrest.hasText htext).mono fun _ hmem => by simp [hmem]

end

theorem Function.hasText {lexemes : List Lexeme} {routine : Routine} {text : String}
    (h : Function lexemes routine) (htext : text ∈ routine.body.literals) :
    HasText lexemes text := by
  cases h with
  | normal _ h | inlined _ _ h =>
    obtain ⟨_, _, _, _, _, _, hbody⟩ := h
    exact (hbody.hasText htext).mono fun _ hmem => by simp [hmem]

/-- The string literals of a script are strings of its text. -/
theorem Whole.hasText {lexemes : List Lexeme} {script : Declarations} (h : Whole lexemes script)
    {routine : Routine} (hroutine : routine ∈ script.routines) {text : String}
    (htext : text ∈ routine.body.literals) : HasText lexemes text := by
  induction h with
  | eof => exact absurd hroutine List.not_mem_nil
  | const line _ _ ih => exact (ih hroutine).mono fun _ hmem => by simp [hmem]
  | routine h _ ih =>
    rcases List.mem_cons.mp hroutine with rfl | hroutine
    · exact (h.hasText htext).mono fun _ hmem => by simp [hmem]
    · exact (ih hroutine).mono fun _ hmem => by simp [hmem]

end Grammar

/-! ## The characters of literals -/

theorem suffix_of_skipTrivia {state : Trivia} {cs rest : List Char} {line line' : Nat}
    (h : skipTrivia state cs line = .ok (rest, line')) : rest <:+ cs := by
  fun_induction skipTrivia state cs line with
  | case1 | case6 =>
    obtain ⟨rfl, -⟩ := Prod.mk.inj (Except.ok.inj h)
    exact List.suffix_rfl
  | case2 | case3 => rename_i ih; exact (ih h).trans ⟨[_, _], rfl⟩
  | case4 | case7 | case9 => rename_i ih; exact (ih h).trans (List.suffix_cons ..)
  | case5 =>
    obtain ⟨rfl, -⟩ := Prod.mk.inj (Except.ok.inj h)
    exact List.suffix_rfl
  | case8 => exact absurd h (by simp)

theorem suffix_readString (start : Nat) (cs : List Char) (line : Nat) (taken : List Char) :
    (readString start cs line taken).rest <:+ cs := by
  fun_induction readString start cs line taken with
  | case1 => exact List.suffix_rfl
  | case2 => exact List.suffix_cons ..
  | case3 => exact List.nil_suffix
  | case4 _ _ _ _ _ _ ih => exact ih.trans ⟨[_, _], rfl⟩
  | case5 => exact ⟨[_, _], rfl⟩
  | case6 _ _ _ _ _ _ _ ih => exact ih.trans (List.suffix_cons ..)

theorem suffix_readItem (c : Char) (rest : List Char) (line : Nat) :
    (readItem c rest line).rest <:+ rest := by
  unfold readItem
  split
  · next sign behind hsign =>
    have hcs := Punct.eq_text_append_of_read? hsign
    obtain ⟨first, others, hfirst⟩ := List.exists_cons_of_ne_nil (Punct.text_ne_nil sign)
    rw [hfirst, List.cons_append] at hcs
    exact ⟨others, (List.cons.inj hcs).2.symm⟩
  · split_ifs
    · exact suffix_readString ..
    · exact List.dropWhile_suffix _
    · exact List.dropWhile_suffix _
    · exact List.suffix_rfl

theorem unescape?_eq_some {c meant : Char} (h : unescape? c = some meant) :
    meant = '\n' ∨ meant = c := by
  unfold unescape? at h
  split at h
  · exact .inl (Option.some.inj h).symm
  · exact .inr (Option.some.inj h).symm
  · exact .inr (Option.some.inj h).symm
  · exact absurd h (by simp)

/-- A string is made of the characters that were read, and of line breaks that were escaped. -/
theorem mem_of_readString {start : Nat} {cs : List Char} {line : Nat} {taken : List Char}
    {text : String} {place : Nat}
    (h : (readString start cs line taken).item = .ok ⟨.str text, place⟩) {c : Char}
    (hc : c ∈ text.toList) : c ∈ taken ∨ c = '\n' ∨ c ∈ cs := by
  fun_induction readString start cs line taken with
  | case1 | case3 | case5 => exact absurd h (by simp)
  | case2 rest line taken =>
    obtain ⟨htoken, -⟩ := Lexeme.mk.inj (Except.ok.inj h)
    obtain rfl := Token.str.inj htoken
    exact .inl (by simpa using hc)
  | case4 line taken other rest meant hmeant ih =>
    rcases ih h with htaken | hbreak | hrest
    · rcases List.mem_cons.mp htaken with rfl | htaken
      · rcases unescape?_eq_some hmeant with rfl | rfl
        · exact .inr (.inl rfl)
        · exact .inr (.inr (by simp))
      · exact .inl htaken
    · exact .inr (.inl hbreak)
    · exact .inr (.inr (by simp [hrest]))
  | case6 line taken other rest _ _ _ ih =>
    rcases ih h with htaken | hbreak | hrest
    · rcases List.mem_cons.mp htaken with rfl | htaken
      · exact .inr (.inr List.mem_cons_self)
      · exact .inl htaken
    · exact .inr (.inl hbreak)
    · exact .inr (.inr (List.mem_cons_of_mem _ hrest))

theorem mem_of_readItem {c : Char} {rest : List Char} {line place : Nat} {text : String}
    (h : (readItem c rest line).item = .ok ⟨.str text, place⟩) {d : Char} (hd : d ∈ text.toList) :
    d = '\n' ∨ d ∈ rest := by
  unfold readItem at h
  split at h
  · exact absurd h (by simp)
  · split_ifs at h
    · exact (mem_of_readString h hd).resolve_left List.not_mem_nil
    · rcases numberToken_cases (c :: rest.takeWhile Char.isDigit) with ⟨value, htoken⟩ | htoken
      · simp [htoken] at h
      · simp [htoken] at h
    · rcases wordToken_cases (c :: rest.takeWhile isNamePart) with ⟨word, htoken⟩ | htoken
      · simp [htoken] at h
      · simp [htoken] at h

/-- The strings of a text hold characters of the text, and line breaks. -/
theorem mem_of_itemsFrom {cs : List Char} {line place : Nat} {taken : List Item} {text : String}
    (h : .ok ⟨.str text, place⟩ ∈ itemsFrom cs line taken) {c : Char} (hc : c ∈ text.toList) :
    .ok ⟨.str text, place⟩ ∈ taken ∨ c = '\n' ∨ c ∈ cs := by
  fun_induction itemsFrom cs line taken with
  | case1 cs line taken e hskipped => exact .inl (by simpa using h)
  | case2 cs line taken line' hskipped => exact .inl (by simpa using h)
  | case3 cs line taken first rest line' hskipped read ih =>
    have hrest : ∀ d ∈ rest, d ∈ cs := fun d hd =>
      (suffix_of_skipTrivia hskipped).subset (List.mem_cons_of_mem first hd)
    rcases ih h with htaken | hbreak | hbehind
    · rcases List.mem_cons.mp htaken with hitem | htaken
      · exact .inr ((mem_of_readItem hitem.symm hc).imp_right (hrest c))
      · exact .inl htaken
    · exact .inr (.inl hbreak)
    · exact .inr (.inr (hrest c ((suffix_readItem first rest line').subset hbehind)))

/-- A character of a script's string literal, other than a line break, stands in its text. -/
theorem mem_of_literal {source : String} {script : Declarations}
    (hparse : parse source = .ok script)
    {routine : Routine} (hroutine : routine ∈ script.routines) {text : String}
    (htext : text ∈ routine.body.literals) {c : Char} (hc : c ∈ text.toList) (hne : c ≠ '\n') :
    c ∈ source.toList := by
  obtain ⟨lexemes, hitems, hwhole⟩ := exists_whole_of_parse hparse
  obtain ⟨line, hmem⟩ := hwhole.hasText hroutine htext
  have hitem : .ok ⟨.str text, line⟩ ∈ items source := by
    rw [hitems]
    exact List.mem_map_of_mem hmem
  rcases mem_of_itemsFrom hitem hc with htaken | hbreak | hsource
  · exact absurd htaken List.not_mem_nil
  · exact absurd hbreak hne
  · exact hsource

end RoomForge.Script

namespace RoomForge.Code

open RoomForge.Script

/-! ## Reading code back -/

theorem mem_marks_of_pushString {instrs : List (Instr Nat)} {text : String}
    (h : .pushString text ∈ instrs) : .text text ∈ marks instrs :=
  List.mem_filterMap.mpr ⟨_, h, rfl⟩

/-- A text that compiled code pushes is a literal of the function or of an inlined one. -/
theorem literal_of_pushString {room : Scope} {routine : Routine} {listing : Listing}
    (h : compileListing room routine = .ok listing) {text : String}
    (htext : .pushString text ∈ listing.instrs) :
    text ∈ routine.body.literals ∨
      ∃ callee ∈ room.routines, callee.isInlined = true ∧ text ∈ callee.body.literals := by
  obtain ⟨mentions, last, hmentions, hmarks⟩ := compileListing_mentions h
  have hmark := mem_marks_of_pushString htext
  rw [hmarks] at hmark
  obtain ⟨mention, hmention, heq⟩ := List.mem_map.mp hmark
  cases mention with
  | text literal =>
    obtain rfl := Mark.text.inj heq
    exact hmentions.from_room (Scope.routines_push ..) hmention
  | start name callee number => exact absurd heq (by simp [Mention.mark])

/-- Whether no string of code holds the character zero. -/
theorem zeroFree_iff {instrs : List (Instr Nat)} :
    (∀ instr ∈ instrs, instr.ZeroFree) ↔
      ∀ text, .pushString text ∈ instrs → '\x00' ∉ text.toList := by
  constructor
  · intro h text htext
    exact h _ htext text rfl
  · rintro h _ hinstr text rfl
    exact h text hinstr

/-- The bytes of a function read back as the code that was compiled if and only if no text in the
code holds the character zero. Such a text is a literal that comes from the character in the
script's text, or from an inlined function of the room. -/
theorem compiled_bytes_read_back_without_zero {source : String} {script : Declarations}
    (hparse : parse source = .ok script) {routine : Routine} (hroutine : routine ∈ script.routines)
    {room : Scope} {bytes : Bytes} (hbytes : compileBytes room routine = .ok bytes) :
    ∃ listing, compileListing room routine = .ok listing ∧
      (decode bytes = some listing.instrs ↔
        ∀ text, .pushString text ∈ listing.instrs → '\x00' ∉ text.toList) ∧
      ∀ text, .pushString text ∈ listing.instrs → '\x00' ∈ text.toList →
        '\x00' ∈ source.toList ∨ ∃ callee ∈ room.routines, callee.isInlined = true ∧
          ∃ literal ∈ callee.body.literals, '\x00' ∈ literal.toList := by
  obtain ⟨listing, hlisting, hencode⟩ := bind_eq_ok_iff.mp hbytes
  refine ⟨listing, hlisting, ?_, ?_⟩
  · rw [← zeroFree_iff]
    exact ⟨zeroFree_of_decode, decode_of_encode hencode⟩
  · intro text htext hzero
    rcases literal_of_pushString hlisting htext with hown | ⟨callee, hcallee, hinlined, hliteral⟩
    · exact .inl (mem_of_literal hparse hroutine hown hzero (by decide))
    · exact .inr ⟨callee, hcallee, hinlined, text, hliteral, hzero⟩

/-- A script with a function that is inlined into the other one. -/
def greetingText : String :=
  "inline function shout() \x7b print(\"hey\"); \x7d
function greet() \x7b if (1) shout(); print(\"you\"); \x7d"

/-- The inlined function of `greetingText`. -/
def shoutRoutine : Routine :=
  { name := "shout", kind := .inlined, line := 1,
    body := .block 1 [.eval 1 (.call "print" [.str "hey"])] }

/-- The other function of `greetingText`. -/
def greetRoutine : Routine :=
  { name := "greet", kind := .normal, line := 2,
    body := .block 2 [.ifElse 2 (.int 1) (.eval 2 (.call "shout" [])) none,
      .eval 2 (.call "print" [.str "you"])] }

theorem items_greetingText : items greetingText =
    [.ok ⟨.keyword .inlineWord, 1⟩, .ok ⟨.keyword .functionWord, 1⟩, .ok ⟨.ident "shout", 1⟩,
      .ok ⟨.punct .lparen, 1⟩, .ok ⟨.punct .rparen, 1⟩, .ok ⟨.punct .lbrace, 1⟩,
      .ok ⟨.ident "print", 1⟩, .ok ⟨.punct .lparen, 1⟩, .ok ⟨.str "hey", 1⟩,
      .ok ⟨.punct .rparen, 1⟩, .ok ⟨.punct .semicolon, 1⟩, .ok ⟨.punct .rbrace, 1⟩,
      .ok ⟨.keyword .functionWord, 2⟩, .ok ⟨.ident "greet", 2⟩, .ok ⟨.punct .lparen, 2⟩,
      .ok ⟨.punct .rparen, 2⟩, .ok ⟨.punct .lbrace, 2⟩, .ok ⟨.keyword .ifWord, 2⟩,
      .ok ⟨.punct .lparen, 2⟩, .ok ⟨.number 1, 2⟩, .ok ⟨.punct .rparen, 2⟩,
      .ok ⟨.ident "shout", 2⟩, .ok ⟨.punct .lparen, 2⟩, .ok ⟨.punct .rparen, 2⟩,
      .ok ⟨.punct .semicolon, 2⟩, .ok ⟨.ident "print", 2⟩, .ok ⟨.punct .lparen, 2⟩,
      .ok ⟨.str "you", 2⟩, .ok ⟨.punct .rparen, 2⟩, .ok ⟨.punct .semicolon, 2⟩,
      .ok ⟨.punct .rbrace, 2⟩, .ok ⟨.eof, 2⟩] := by
  decide +kernel

/-- The bytes of `greetRoutine`. -/
def greetBytes : Bytes :=
  [1, 1, 0, 33, 8, 0, 2, 104, 101, 121, 0, 49, 1, 1, 2, 121, 111, 117, 0, 49, 1, 1, 64]

theorem greeting_reads_back :
    parse greetingText = .ok ⟨[], [shoutRoutine, greetRoutine]⟩ ∧
      compileBytes (.ofRoom [] [shoutRoutine, greetRoutine]) greetRoutine = .ok greetBytes ∧
      ∃ listing,
        compileListing (.ofRoom [] [shoutRoutine, greetRoutine]) greetRoutine = .ok listing ∧
        (decode greetBytes = some listing.instrs ↔
          ∀ text, .pushString text ∈ listing.instrs → '\x00' ∉ text.toList) := by
  have hparse : parse greetingText = .ok ⟨[], [shoutRoutine, greetRoutine]⟩ := by
    rw [parse, items_greetingText]
    rfl
  have hbytes : compileBytes (.ofRoom [] [shoutRoutine, greetRoutine]) greetRoutine =
      .ok greetBytes := by decide +kernel
  obtain ⟨listing, hlisting, hback, -⟩ :=
    compiled_bytes_read_back_without_zero hparse (List.mem_cons_of_mem _ List.mem_cons_self) hbytes
  exact ⟨hparse, hbytes, listing, hlisting, hback⟩

/-- A script whose string holds the character zero, and behind it the opcode of a pushed text. -/
def splitText : String :=
  "function f() \x7b print(\"a\x00\x02b\"); \x7d"

/-- The function of `splitText`. -/
def splitRoutine : Routine :=
  { name := "f", kind := .normal, line := 1,
    body := .block 1 [.eval 1 (.call "print" [.str "a\x00\x02b"])] }

/-- One text of the script reads back as two. -/
theorem split_text_reads_back_as_two :
    parse splitText = .ok ⟨[], [splitRoutine]⟩ ∧
      ∃ bytes, compileBytes (.ofRoom [] [splitRoutine]) splitRoutine = .ok bytes ∧
        compileListing (.ofRoom [] [splitRoutine]) splitRoutine =
          .ok ⟨[.pushString "a\x00\x02b", .callBuiltin 1 1, .stop], 0⟩ ∧
        decode bytes =
          some [.pushString "a", .pushString "b", .callBuiltin 1 1, .stop] := by
  have hitems : items splitText =
      [.ok ⟨.keyword .functionWord, 1⟩, .ok ⟨.ident "f", 1⟩, .ok ⟨.punct .lparen, 1⟩,
        .ok ⟨.punct .rparen, 1⟩, .ok ⟨.punct .lbrace, 1⟩, .ok ⟨.ident "print", 1⟩,
        .ok ⟨.punct .lparen, 1⟩, .ok ⟨.str "a\x00\x02b", 1⟩, .ok ⟨.punct .rparen, 1⟩,
        .ok ⟨.punct .semicolon, 1⟩, .ok ⟨.punct .rbrace, 1⟩, .ok ⟨.eof, 1⟩] := by decide +kernel
  refine ⟨?_, [2, 97, 0, 2, 98, 0, 49, 1, 1, 64], ?_, ?_, ?_⟩
  · rw [parse, hitems]
    rfl
  · decide +kernel
  · decide +kernel
  · decide +kernel

end RoomForge.Code
