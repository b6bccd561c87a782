import Mathlib.Data.List.Chain
import RoomForge.Proofs.LongestToken
import RoomForge.Proofs.Recognition

set_option autoImplicit false

/-! # Rows of tokens

Tokens can be written one behind the other with blanks between them, and without blanks wherever the
first character of the next token cannot go on with the one before. Reading such a row gives back
its tokens: `itemsFrom_row`. `legible_of_isChain` reduces this to neighbors in a row.
-/

namespace RoomForge.Script

/-! ## Tokens side by side -/

/-- The character cannot go on with the token. -/
def Token.stops : Token → Char → Bool
  | .ident _, c | .keyword _, c => !isNamePart c
  | .number _, c => !c.isDigit
  | .punct .slash, c => c != '/' && c != '*'
  | .punct .assign, c | .punct .bang, c | .punct .lt, c | .punct .gt, c => c != '='
  | _, _ => true

theorem isDigit_eq_false_of_isNamePart {c : Char} (h : isNamePart c = false) :
    c.isDigit = false := by
  rw [Bool.eq_false_iff]
  intro hdigit
  exact absurd (isNamePart_of_isDigit hdigit) (by simp [h])

theorem stops_blank (token : Token) {blank : Char} (h : Text.isBlank blank = true) :
    token.stops blank = true := by
  have hpart := isNamePart_eq_false_of_isBlank h
  have hdigit := isDigit_eq_false_of_isNamePart hpart
  have hslash : blank ≠ '/' := ne_of_isBlank h (by decide)
  have hstar : blank ≠ '*' := ne_of_isBlank h (by decide)
  have hequals : blank ≠ '=' := ne_of_isBlank h (by decide)
  unfold Token.stops
  split <;> simp [hpart, hdigit, hslash, hstar, hequals]

/-- What reading does at the first character of a token in front of `rest`. -/
structure ReadsUpTo (token : Token) (first : Char) (others rest : List Char) : Prop where
  inked : Inked (first :: (others ++ rest))
  reads : ∀ line, readItem first (others ++ rest) line =
    ⟨.ok ⟨token, line⟩, rest, line + (first :: others).count '\n'⟩

section

variable {rest : List Char}

theorem takeWhile_append_stop {p : Char → Bool} {word : List Char} (h : ∀ c ∈ word, p c = true)
    (hrest : ∀ c ∈ rest.head?, p c = false) : (word ++ rest).takeWhile p = word := by
  cases rest with
  | nil => simpa using h
  | cons c rest => exact takeWhile_append_cons h (hrest c rfl) rest

theorem dropWhile_append_stop {p : Char → Bool} {word : List Char} (h : ∀ c ∈ word, p c = true)
    (hrest : ∀ c ∈ rest.head?, p c = false) : (word ++ rest).dropWhile p = rest := by
  cases rest with
  | nil => simpa using h
  | cons c rest => exact dropWhile_append_cons h (hrest c rfl) rest

theorem inked_of_isNamePart {first : Char} (h : isNamePart first = true) (cs : List Char) :
    Inked (first :: cs) := by
  rintro c _ ⟨⟩
  refine ⟨isBlank_eq_false_of_isNamePart h, ?_⟩
  rintro rfl
  exact absurd h (by decide)

theorem readsUpTo_word {token : Token} {first : Char} {others : List Char}
    (hfirst : isNameStart first = true) (hothers : ∀ c ∈ others, isNamePart c = true)
    (htoken : wordToken (first :: others) = token)
    (hrest : ∀ c ∈ rest.head?, isNamePart c = false) : ReadsUpTo token first others rest where
  inked := inked_of_isNamePart (isNamePart_of_isNameStart hfirst) _
  reads line := by
    have hpart := isNamePart_of_isNameStart hfirst
    have hbreaks := count_breaks_word (List.forall_mem_cons.mpr ⟨hpart, hothers⟩)
    rw [readItem, read?_eq_none (.inl hpart), hbreaks]
    simp only [if_neg (ne_quote_of_isNamePart hpart), isDigit_eq_false_of_isNameStart hfirst,
      hfirst, if_true, Bool.false_eq_true, if_false, takeWhile_append_stop hothers hrest,
      dropWhile_append_stop hothers hrest, htoken, Nat.add_zero]

theorem readsUpTo_number {first : Char} {others : List Char}
    (hdigits : ∀ c ∈ first :: others, c.isDigit = true)
    (hvalue : Text.decimalValue (first :: others) < 2 ^ 31)
    (hrest : ∀ c ∈ rest.head?, c.isDigit = false) :
    ReadsUpTo (.number (Text.decimalValue (first :: others))) first others rest where
  inked := inked_of_isNamePart (isNamePart_of_isDigit (hdigits first List.mem_cons_self)) _
  reads line := by
    have hbreaks := count_breaks_word fun c hc => isNamePart_of_isDigit (hdigits c hc)
    rw [List.forall_mem_cons] at hdigits
    have hpart := isNamePart_of_isDigit hdigits.1
    rw [readItem, read?_eq_none (.inl hpart), hbreaks]
    simp only [if_neg (ne_quote_of_isNamePart hpart), hdigits.1, if_true,
      takeWhile_append_stop hdigits.2 hrest, dropWhile_append_stop hdigits.2 hrest,
      numberToken_of_lt hvalue, Nat.add_zero]

theorem readsUpTo_string {text written : List Char} (h : Quotes text written) :
    ReadsUpTo (.str (String.ofList text)) '"' (written ++ ['"']) rest where
  inked := by
    rintro c _ ⟨⟩
    exact ⟨by decide, by simp⟩
  reads line := by
    rw [readItem, read?_eq_none (.inr rfl), List.append_assoc, List.singleton_append]
    simp only [if_true, readString_written h, List.reverse_nil, List.nil_append]
    simp

/-- Of the signs, only those that a `=` makes longer depend on what follows. -/
theorem read?_sign_stop (sign : Punct) (h : ∀ c ∈ rest.head?, (Token.punct sign).stops c = true) :
    Punct.read? (sign.text.toList ++ rest) = some (sign, rest) := by
  cases rest with
  | nil => cases sign <;> rfl
  | cons c rest =>
    have hstops := h c rfl
    cases sign <;> simp_all [Token.stops, Punct.read?, Punct.all, Punct.text, List.isPrefixOf,
      @eq_comm _ '=' c]

theorem readsUpTo_sign (sign : Punct) {first : Char} {others : List Char}
    (htext : sign.text.toList = first :: others)
    (hrest : ∀ c ∈ rest.head?, (Token.punct sign).stops c = true) :
    ReadsUpTo (.punct sign) first others rest where
  inked := by
    rintro c cs ⟨⟩
    refine ⟨?_, ?_⟩
    · rw [Bool.eq_false_iff]
      intro hblank
      exact not_mem_sign hblank sign (htext ▸ List.mem_cons_self)
    · rintro rfl
      obtain rfl : sign = .slash := by
        cases sign <;> simp_all [Punct.text]
      obtain rfl : others = [] := by simpa [Punct.text] using htext.symm
      constructor <;> intro hhead <;> exact absurd (hrest _ hhead) (by decide)
  reads line := by
    have hread := read?_sign_stop sign hrest
    have hbreaks : (first :: others).count '\n' = 0 := by
      rw [← htext]
      exact List.count_eq_zero_of_not_mem (not_mem_sign (by decide) sign)
    rw [htext, List.cons_append] at hread
    rw [readItem, hread, hbreaks]
    rfl

/-- Every spelling of a token is read as the token, unless what follows goes on with it. -/
theorem Spells.exists_readsUpTo {token : Token} {text : List Char} (h : Spells token text)
    (hrest : ∀ c ∈ rest.head?, token.stops c = true) :
    ∃ first others, text = first :: others ∧ ReadsUpTo token first others rest := by
  cases h with
  | @ident first others hfirst hothers hname =>
    refine ⟨first, others, rfl, readsUpTo_word ?_ ?_ (wordToken_ident hname) ?_⟩
    · simpa [isNameStart] using hfirst
    · intro c hc
      simpa [isNamePart] using hothers c hc
    · intro c hc
      simpa [Token.stops] using hrest c hc
  | @number first others hdigits hvalue =>
    refine ⟨first, others, rfl, readsUpTo_number hdigits hvalue fun c hc => ?_⟩
    simpa [Token.stops] using hrest c hc
  | @str text written hquotes => exact ⟨'"', written ++ ['"'], rfl, readsUpTo_string hquotes⟩
  | keyword word =>
    obtain ⟨first, others, htext, hfirst, hothers⟩ := exists_keyword_chars word
    refine ⟨first, others, htext, readsUpTo_word hfirst hothers ?_ fun c hc => ?_⟩
    · rw [← htext, wordToken_keyword]
    · simpa [Token.stops] using hrest c hc
  | punct sign =>
    obtain ⟨first, others, htext⟩ := List.exists_cons_of_ne_nil (Punct.text_ne_nil sign)
    exact ⟨first, others, htext, readsUpTo_sign sign htext hrest⟩

end

/-! ## Rows of tokens -/

/-- Tokens one behind the other, each in its usual spelling and with the blanks behind it. -/
def rowChars (row : List (Token × List Char)) : List Char :=
  row.flatMap fun piece => piece.1.spelling ++ piece.2

/-- The tokens of a row that starts on `line`, and the end, each with its line. -/
def rowLexemes (line : Nat) : List (Token × List Char) → List Lexeme
  | [] => [⟨.eof, line⟩]
  | piece :: rest =>
    ⟨piece.1, line⟩ :: rowLexemes (line + (piece.1.spelling ++ piece.2).count '\n') rest

/-- A row of tokens that can be written, with nothing but blanks between them, in which no token
runs into what follows it. -/
def Legible : List (Token × List Char) → Prop
  | [] => True
  | piece :: rest => piece.1.Writable ∧ (∀ c ∈ piece.2, Text.isBlank c = true) ∧
      (∀ c ∈ (piece.2 ++ rowChars rest).head?, piece.1.stops c = true) ∧ Legible rest

theorem skipTrivia_blanks {blanks : List Char} (h : ∀ c ∈ blanks, Text.isBlank c = true)
    (rest : List Char) (line : Nat) :
    skipTrivia .blank (blanks ++ rest) line =
      skipTrivia .blank rest (line + blanks.count '\n') := by
  induction blanks generalizing line with
  | nil => rfl
  | cons c blanks ih =>
    rw [List.forall_mem_cons] at h
    rw [List.cons_append, skipTrivia_blank h.1, ih h.2, lineAfter_eq, Nat.add_assoc,
      ← List.count_append, List.singleton_append]

/-- A legible row is read as its tokens. -/
theorem itemsFrom_row {row : List (Token × List Char)} (h : Legible row) {blanks : List Char}
    (hblanks : ∀ c ∈ blanks, Text.isBlank c = true) (line : Nat) (taken : List Item) :
    itemsFrom (blanks ++ rowChars row) line taken =
      taken.reverse ++ itemsOf (rowLexemes (line + blanks.count '\n') row) := by
  induction row generalizing blanks line taken with
  | nil =>
    have hend : skipTrivia .blank (blanks ++ rowChars []) line =
        .ok ([], line + blanks.count '\n') := by
      rw [skipTrivia_blanks hblanks]
      rfl
    rw [itemsFrom_eof taken hend, rowLexemes]
    simp [itemsOf]
  | cons piece rest ih =>
    obtain ⟨hwritable, hbehind, hstops, hrest⟩ := h
    obtain ⟨first, others, htext, hreads⟩ :=
      (Token.spells_spelling hwritable).exists_readsUpTo hstops
    have hstart : skipTrivia .blank (blanks ++ rowChars (piece :: rest)) line =
        .ok (first :: (others ++ (piece.2 ++ rowChars rest)), line + blanks.count '\n') := by
      rw [skipTrivia_blanks hblanks, ← skipTrivia_inked hreads.inked]
      simp [rowChars, htext]
    rw [itemsFrom_item taken hstart, hreads.reads, ← htext, ih hrest hbehind, rowLexemes,
      List.count_append]
    simp [itemsOf, Nat.add_assoc]

/-- The second token may stand right behind the first. -/
def Abuts (first second : Token) : Prop :=
  ∀ c ∈ second.spelling.head?, first.stops c = true

/-- With tokens that may stand side by side, any blanks will do. -/
theorem legible_of_isChain {row : List (Token × List Char)}
    (hwritable : ∀ piece ∈ row, piece.1.Writable)
    (hblanks : ∀ piece ∈ row, ∀ c ∈ piece.2, Text.isBlank c = true)
    (h : List.IsChain Abuts (row.map Prod.fst)) : Legible row := by
  induction row with
  | nil => trivial
  | cons piece rest ih =>
    rw [List.forall_mem_cons] at hwritable hblanks
    rw [List.map_cons, List.isChain_cons] at h
    refine ⟨hwritable.1, hblanks.1, ?_, ih hwritable.2 hblanks.2 h.2⟩
    intro c hc
    cases hbehind : piece.2 with
    | cons blank others =>
      rw [hbehind] at hc
      obtain rfl : blank = c := Option.some.inj hc
      exact stops_blank _ (hblanks.1 _ (hbehind ▸ List.mem_cons_self))
    | nil =>
      rw [hbehind, List.nil_append] at hc
      cases rest with
      | nil => exact absurd hc (by simp [rowChars])
      | cons next rest =>
        refine h.1 next.1 rfl c ?_
        have hne := (Token.spells_spelling (hwritable.2 next List.mem_cons_self)).ne_nil
        obtain ⟨d, others, hspelling⟩ := List.exists_cons_of_ne_nil hne
        rw [hspelling]
        simpa [rowChars, hspelling] using hc

end RoomForge.Script
