import Mathlib.Algebra.Ring.Nat
import Mathlib.Data.List.Infix
import RoomForge.Script.Lexer

set_option autoImplicit false

/-! # Written tokens

A script's text can be made of tokens, each written in one of its spellings, with blanks and
comments between them (specification, section 4.1). Reading such a text gives back the tokens, each
with the line on which it stands: `reading_undoes_writing`. A blank is asked for behind each token;
`Proofs.TokenRows` says where it can be left out.
-/

namespace RoomForge.Script

/-! ## Between tokens -/

/-- A blank or a comment. -/
inductive Gap where
  | blank (c : Char) (h : Text.isBlank c = true)
  /-- A comment that ends with its line. -/
  | lineComment (text : List Char) (h : '\n' ∉ text)
  /-- A comment in brackets. -/
  | blockComment (text : List Char) (h : ¬ ['*', '/'] <:+: text)

/-- A blank or a comment as it is written. -/
def Gap.chars : Gap → List Char
  | .blank c _ => [c]
  | .lineComment text _ => '/' :: '/' :: (text ++ ['\n'])
  | .blockComment text _ => '/' :: '*' :: (text ++ ['*', '/'])

/-- Blanks and comments, one behind the other. -/
def gapChars (gaps : List Gap) : List Char :=
  gaps.flatMap Gap.chars

theorem lineAfter_eq (c : Char) (line : Nat) : lineAfter c line = line + [c].count '\n' := by
  unfold lineAfter
  by_cases h : c = '\n'
  · simp [h]
  · simp [h]

theorem ne_of_isBlank {blank c : Char} (hblank : Text.isBlank blank = true)
    (hc : Text.isBlank c = false) : blank ≠ c := by
  rintro rfl
  exact absurd hblank (by simp [hc])

theorem skipTrivia_blank {c : Char} (h : Text.isBlank c = true) (rest : List Char) (line : Nat) :
    skipTrivia .blank (c :: rest) line = skipTrivia .blank rest (lineAfter c line) := by
  have hslash : c ≠ '/' := ne_of_isBlank h (by decide)
  rw [skipTrivia.eq_def]
  split <;> simp_all

theorem skipTrivia_lineComment_cons (c : Char) (rest : List Char) (line : Nat) :
    skipTrivia .lineComment (c :: rest) line =
      skipTrivia (if c = '\n' then .blank else .lineComment) rest (lineAfter c line) := rfl

theorem skipTrivia_blockComment_cons (start : Nat) (star : Bool) (c : Char) (rest : List Char)
    (line : Nat) :
    skipTrivia (.blockComment start star) (c :: rest) line =
      skipTrivia (if star ∧ c = '/' then .blank else .blockComment start (c = '*')) rest
        (lineAfter c line) := rfl

theorem skipTrivia_lineComment {text : List Char} (h : '\n' ∉ text) (rest : List Char)
    (line : Nat) :
    skipTrivia .lineComment (text ++ '\n' :: rest) line = skipTrivia .blank rest (line + 1) := by
  induction text with
  | nil => rfl
  | cons c text ih =>
    rw [List.mem_cons, not_or] at h
    have hc : c ≠ '\n' := fun heq => h.1 heq.symm
    rw [List.cons_append, skipTrivia_lineComment_cons, if_neg hc, lineAfter, if_neg hc]
    exact ih h.2

/-- The comment is closed by the first star that stands in front of a slash. -/
theorem skipTrivia_blockComment {text : List Char} (h : ¬ ['*', '/'] <:+: text) (star : Bool)
    (hstar : star = true → text.head? ≠ some '/') (start : Nat) (rest : List Char) (line : Nat) :
    skipTrivia (.blockComment start star) (text ++ '*' :: '/' :: rest) line =
      skipTrivia .blank rest (line + text.count '\n') := by
  induction text generalizing star line with
  | nil =>
    rw [List.nil_append, skipTrivia_blockComment_cons, if_neg (by simp),
      skipTrivia_blockComment_cons, if_pos (by simp)]
    rfl
  | cons c text ih =>
    have hopen : ¬ (star = true ∧ c = '/') := by
      rintro ⟨hstar', rfl⟩
      exact hstar hstar' rfl
    have htext : ¬ ['*', '/'] <:+: text := fun hinfix => h (List.infix_cons hinfix)
    have hnext : decide (c = '*') = true → text.head? ≠ some '/' := by
      intro hc hhead
      obtain ⟨tail, rfl⟩ : ∃ tail, text = '/' :: tail := by
        cases text with
        | nil => exact absurd hhead (by simp)
        | cons d tail => exact ⟨tail, by rw [Option.some.inj hhead]⟩
      rw [of_decide_eq_true hc] at h
      exact h ⟨[], tail, rfl⟩
    rw [List.cons_append, skipTrivia_blockComment_cons, if_neg hopen, ih htext _ hnext,
      lineAfter_eq, Nat.add_assoc, ← List.count_append, List.singleton_append]

/-- A gap is skipped, and its line breaks are counted. -/
theorem skipTrivia_gap (gap : Gap) (rest : List Char) (line : Nat) :
    skipTrivia .blank (gap.chars ++ rest) line =
      skipTrivia .blank rest (line + gap.chars.count '\n') := by
  cases gap with
  | blank c h => rw [Gap.chars, List.singleton_append, skipTrivia_blank h, lineAfter_eq]
  | lineComment text h =>
    have hcount : (Gap.lineComment text h).chars.count '\n' = 1 := by
      simp [Gap.chars, List.count_eq_zero_of_not_mem h]
    have hopen : skipTrivia .blank ('/' :: '/' :: (text ++ '\n' :: rest)) line =
        skipTrivia .lineComment (text ++ '\n' :: rest) line := rfl
    rw [hcount, ← skipTrivia_lineComment h, ← hopen]
    simp [Gap.chars]
  | blockComment text h =>
    have hcount : (Gap.blockComment text h).chars.count '\n' = text.count '\n' := by
      simp [Gap.chars]
    have hopen : skipTrivia .blank ('/' :: '*' :: (text ++ '*' :: '/' :: rest)) line =
        skipTrivia (.blockComment line false) (text ++ '*' :: '/' :: rest) line := rfl
    rw [hcount, ← skipTrivia_blockComment h false (by simp) line, ← hopen]
    simp [Gap.chars]

theorem skipTrivia_gaps (gaps : List Gap) (rest : List Char) (line : Nat) :
    skipTrivia .blank (gapChars gaps ++ rest) line =
      skipTrivia .blank rest (line + (gapChars gaps).count '\n') := by
  induction gaps generalizing line with
  | nil => rfl
  | cons gap gaps ih =>
    rw [gapChars, List.flatMap_cons, ← gapChars, List.append_assoc, skipTrivia_gap, ih,
      List.count_append, Nat.add_assoc]

/-! ## Spellings -/

/-- A text as it may be written between quotes. Line breaks need no escape, but may have one. -/
inductive Quotes : List Char → List Char → Prop where
  | nil : Quotes [] []
  | plain {c : Char} {text written : List Char} (hquote : c ≠ '"') (hslash : c ≠ '\\')
      (h : Quotes text written) : Quotes (c :: text) (c :: written)
  | quote {text written : List Char} (h : Quotes text written) :
      Quotes ('"' :: text) ('\\' :: '"' :: written)
  | backslash {text written : List Char} (h : Quotes text written) :
      Quotes ('\\' :: text) ('\\' :: '\\' :: written)
  | lineBreak {text written : List Char} (h : Quotes text written) :
      Quotes ('\n' :: text) ('\\' :: 'n' :: written)

/-- How tokens may be written. -/
inductive Spells : Token → List Char → Prop where
  | ident {first : Char} {rest : List Char} (hfirst : first.isAlpha = true ∨ first = '_')
      (hrest : ∀ c ∈ rest, c.isAlphanum = true ∨ c = '_')
      (hname : ∀ keyword : Keyword, keyword.text ≠ String.ofList (first :: rest)) :
      Spells (.ident (String.ofList (first :: rest))) (first :: rest)
  | number {first : Char} {rest : List Char} (hdigits : ∀ c ∈ first :: rest, c.isDigit = true)
      (hvalue : Text.decimalValue (first :: rest) < 2 ^ 31) :
      Spells (.number (Text.decimalValue (first :: rest))) (first :: rest)
  | str {text written : List Char} (h : Quotes text written) :
      Spells (.str (String.ofList text)) ('"' :: (written ++ ['"']))
  | keyword (word : Keyword) : Spells (.keyword word) word.text.toList
  | punct (sign : Punct) : Spells (.punct sign) sign.text.toList

/-! ## The first character -/

theorem isNamePart_of_isNameStart {c : Char} (h : isNameStart c = true) : isNamePart c = true := by
  rw [isNameStart, Bool.or_eq_true] at h
  rw [isNamePart, Bool.or_eq_true, Char.isAlphanum, Bool.or_eq_true]
  exact h.imp_left .inl

theorem isNamePart_of_isDigit {c : Char} (h : c.isDigit = true) : isNamePart c = true := by
  rw [isNamePart, Bool.or_eq_true, Char.isAlphanum, Bool.or_eq_true]
  exact .inl (.inr h)

theorem ne_quote_of_isNamePart {c : Char} (h : isNamePart c = true) : c ≠ '"' := by
  rintro rfl
  exact absurd h (by decide)

theorem toNat_of_isNamePart {c : Char} (h : isNamePart c = true) :
    (65 ≤ c.toNat ∧ c.toNat ≤ 90) ∨ (97 ≤ c.toNat ∧ c.toNat ≤ 122) ∨
      (48 ≤ c.toNat ∧ c.toNat ≤ 57) ∨ c.toNat = 95 := by
  unfold isNamePart Char.isAlphanum Char.isAlpha Char.isUpper Char.isLower Char.isDigit at h
  simp only [Bool.or_eq_true, Bool.and_eq_true, decide_eq_true_eq, UInt32.le_iff_toNat_le,
    ge_iff_le, beq_iff_eq] at h
  rcases h with ((hupper | hlower) | hdigit) | rfl
  · exact .inl hupper
  · exact .inr (.inl hlower)
  · exact .inr (.inr (.inl hdigit))
  · exact .inr (.inr (.inr rfl))

theorem isDigit_eq_false_of_isNameStart {c : Char} (h : isNameStart c = true) :
    c.isDigit = false := by
  unfold isNameStart Char.isAlpha Char.isUpper Char.isLower at h
  simp only [Bool.or_eq_true, Bool.and_eq_true, decide_eq_true_eq, UInt32.le_iff_toNat_le,
    ge_iff_le, beq_iff_eq] at h
  rw [Bool.eq_false_iff]
  intro hdigit
  simp only [Char.isDigit, Bool.and_eq_true, decide_eq_true_eq, UInt32.le_iff_toNat_le,
    ge_iff_le] at hdigit
  have hlast : c.toNat ≤ 57 := hdigit.2
  rcases h with (hupper | hlower) | rfl
  · exact absurd (Nat.le_trans hupper.1 hlast) (by decide)
  · exact absurd (Nat.le_trans hlower.1 hlast) (by decide)
  · exact absurd hlast (by decide)

/-- Names hold no blanks. -/
theorem isBlank_eq_false_of_isNamePart {c : Char} (h : isNamePart c = true) :
    Text.isBlank c = false := by
  have hrange := toNat_of_isNamePart h
  rw [Bool.eq_false_iff]
  intro hblank
  simp only [Text.isBlank, Bool.or_eq_true, Bool.and_eq_true, decide_eq_true_eq, beq_iff_eq]
    at hblank
  omega

theorem isNamePart_eq_false_of_isBlank {c : Char} (h : Text.isBlank c = true) :
    isNamePart c = false := by
  rw [Bool.eq_false_iff]
  intro hpart
  exact absurd h (by simp [isBlank_eq_false_of_isNamePart hpart])

/-- A sign starts with none of the characters that names, numbers and strings start with. -/
theorem read?_eq_none {c : Char} (h : isNamePart c = true ∨ c = '"') (rest : List Char) :
    Punct.read? (c :: rest) = none := by
  have hstarts : Punct.all.all (fun sign => sign.text.toList.head?.all fun first =>
      !isNamePart first && first != '"') = true := by decide
  rw [Punct.read?, Option.map_eq_none_iff, List.find?_eq_none]
  intro sign hsign hprefix
  have hsign' := List.all_eq_true.mp hstarts sign hsign
  obtain ⟨tail, htail⟩ := List.isPrefixOf_iff_prefix.mp hprefix
  obtain ⟨first, others, hfirst⟩ := List.exists_cons_of_ne_nil (Punct.text_ne_nil sign)
  rw [hfirst, List.cons_append] at htail
  obtain rfl := (List.cons.inj htail).1
  rw [hfirst] at hsign'
  simp only [List.head?_cons, Option.all_some, Bool.and_eq_true, Bool.not_eq_true', bne_iff_ne]
    at hsign'
  rcases h with hpart | hquote
  · exact absurd hpart (by simp [hsign'.1])
  · exact hsign'.2 hquote

theorem isPrefixOf_append_cons {sought text : List Char} {blank : Char} (h : blank ∉ sought)
    (rest : List Char) : sought.isPrefixOf (text ++ blank :: rest) = sought.isPrefixOf text := by
  induction sought generalizing text with
  | nil => rfl
  | cons c sought ih =>
    rw [List.mem_cons, not_or] at h
    cases text with
    | nil =>
      have hne : c ≠ blank := fun heq => h.1 heq.symm
      simp [List.isPrefixOf, hne]
    | cons d text => simp [List.isPrefixOf, ih h.2]

/-- Of the signs at the head of a sign's own text, the sign itself is looked for first. -/
theorem find?_sign (sign : Punct) :
    (Punct.all.find? fun other => other.text.toList.isPrefixOf sign.text.toList) = some sign := by
  cases sign <;> decide

theorem not_mem_sign {blank : Char} (h : Text.isBlank blank = true) (sign : Punct) :
    blank ∉ sign.text.toList := by
  have hall : (sign.text.toList.all fun c => !Text.isBlank c) = true := by
    cases sign <;> decide
  intro hmem
  have hblank := List.all_eq_true.mp hall blank hmem
  exact absurd h (by simpa using hblank)

/-- A sign is read off the text if a blank follows it. -/
theorem read?_sign (sign : Punct) {blank : Char} (h : Text.isBlank blank = true)
    (rest : List Char) :
    Punct.read? (sign.text.toList ++ blank :: rest) = some (sign, blank :: rest) := by
  have hfind : (Punct.all.find? fun other =>
      other.text.toList.isPrefixOf (sign.text.toList ++ blank :: rest)) = some sign := by
    simp only [isPrefixOf_append_cons (not_mem_sign h _)]
    exact find?_sign sign
  rw [Punct.read?, hfind, Option.map_some, List.drop_left]

/-! ## Reading spellings -/

theorem takeWhile_append_cons {p : Char → Bool} {word : List Char} (h : ∀ c ∈ word, p c = true)
    {blank : Char} (hblank : p blank = false) (rest : List Char) :
    (word ++ blank :: rest).takeWhile p = word := by
  rw [List.takeWhile_append_of_pos h, List.takeWhile_cons_of_neg (by simp [hblank]),
    List.append_nil]

theorem dropWhile_append_cons {p : Char → Bool} {word : List Char} (h : ∀ c ∈ word, p c = true)
    {blank : Char} (hblank : p blank = false) (rest : List Char) :
    (word ++ blank :: rest).dropWhile p = blank :: rest := by
  rw [List.dropWhile_append_of_pos h, List.dropWhile_cons_of_neg (by simp [hblank])]

/-- A quoted text is read up to its closing quote, whatever stands behind it. -/
theorem readString_written {text written : List Char} (h : Quotes text written) (start : Nat)
    (rest : List Char) (line : Nat) (taken : List Char) :
    readString start (written ++ '"' :: rest) line taken =
      ⟨.ok ⟨.str (String.ofList (taken.reverse ++ text)), start⟩, rest,
        line + written.count '\n'⟩ := by
  induction h generalizing line taken with
  | nil => simp [readString]
  | @plain c text written hquote hslash h ih =>
    have hstep : readString start (c :: (written ++ '"' :: rest)) line taken =
        readString start (written ++ '"' :: rest) (lineAfter c line) (c :: taken) := by
      rw [readString.eq_def]
      split <;> simp_all
    rw [List.cons_append, hstep, ih, lineAfter_eq, Nat.add_assoc, ← List.count_append]
    simp
  | quote h ih | backslash h ih | lineBreak h ih =>
    simp [readString, unescape?, ih]

/-- A word is read up to the blank behind it. -/
theorem readItem_word {first blank : Char} {rest : List Char} (hfirst : isNameStart first = true)
    (hrest : ∀ c ∈ rest, isNamePart c = true) (hblank : Text.isBlank blank = true)
    (more : List Char) (line : Nat) :
    readItem first (rest ++ blank :: more) line =
      ⟨.ok ⟨wordToken (first :: rest), line⟩, blank :: more, line⟩ := by
  have hpart := isNamePart_of_isNameStart hfirst
  have hquote := ne_quote_of_isNamePart hpart
  have hbehind := isNamePart_eq_false_of_isBlank hblank
  rw [readItem, read?_eq_none (.inl hpart)]
  simp only [if_neg hquote, isDigit_eq_false_of_isNameStart hfirst, hfirst, if_true,
    Bool.false_eq_true, if_false, takeWhile_append_cons hrest hbehind,
    dropWhile_append_cons hrest hbehind]

theorem numberToken_of_lt {digits : List Char} (h : Text.decimalValue digits < 2 ^ 31) :
    numberToken digits = .ok (.number (Text.decimalValue digits)) := by
  have hbelow : Text.decimalBelow? 0x80000000 digits = some (Text.decimalValue digits) :=
    (Text.decimalBelow?_eq_some_iff (by decide)).mpr ⟨rfl, h⟩
  rw [numberToken, hbelow]

/-- A number is read up to the blank behind it. -/
theorem readItem_number {first blank : Char} {rest : List Char}
    (hdigits : ∀ c ∈ first :: rest, c.isDigit = true)
    (hvalue : Text.decimalValue (first :: rest) < 2 ^ 31) (hblank : Text.isBlank blank = true)
    (more : List Char) (line : Nat) :
    readItem first (rest ++ blank :: more) line =
      ⟨.ok ⟨.number (Text.decimalValue (first :: rest)), line⟩, blank :: more, line⟩ := by
  rw [List.forall_mem_cons] at hdigits
  have hpart := isNamePart_of_isDigit hdigits.1
  have hquote := ne_quote_of_isNamePart hpart
  have hbehind : blank.isDigit = false := by
    rw [Bool.eq_false_iff]
    intro hdigit
    exact absurd (isNamePart_of_isDigit hdigit) (by simp [isNamePart_eq_false_of_isBlank hblank])
  rw [readItem, read?_eq_none (.inl hpart)]
  simp only [if_neg hquote, hdigits.1, if_true, takeWhile_append_cons hdigits.2 hbehind,
    dropWhile_append_cons hdigits.2 hbehind, numberToken_of_lt hvalue]

theorem wordToken_ident {word : List Char}
    (h : ∀ keyword : Keyword, keyword.text ≠ String.ofList word) :
    wordToken word = .ident (String.ofList word) := by
  have hnone : Keyword.ofText? (String.ofList word) = none := by
    rw [Keyword.ofText?, List.find?_eq_none]
    intro keyword _
    simpa using h keyword
  simp only [wordToken, hnone]

theorem wordToken_keyword (word : Keyword) : wordToken word.text.toList = .keyword word := by
  simp only [wordToken, String.ofList_toList, Keyword.ofText?_text]

/-- Keywords are words. -/
theorem exists_keyword_chars (word : Keyword) : ∃ first rest, word.text.toList = first :: rest ∧
    isNameStart first = true ∧ ∀ c ∈ rest, isNamePart c = true := by
  have hword : (word.text.toList.head?.any isNameStart &&
      word.text.toList.all isNamePart) = true := by
    cases word <;> decide
  rw [Bool.and_eq_true] at hword
  cases htext : word.text.toList with
  | nil => rw [htext] at hword; exact absurd hword.1 (by decide)
  | cons first rest =>
    rw [htext] at hword
    refine ⟨first, rest, rfl, by simpa using hword.1, fun c hc => ?_⟩
    exact List.all_eq_true.mp hword.2 c (List.mem_cons_of_mem first hc)

theorem count_breaks_word {word : List Char} (h : ∀ c ∈ word, isNamePart c = true) :
    word.count '\n' = 0 :=
  List.count_eq_zero_of_not_mem fun hmem => absurd (h '\n' hmem) (by decide)

/-- What reading does at the first character of a token that is written in front of a blank. -/
structure ReadsOff (token : Token) (first : Char) (rest : List Char) (blank : Char) : Prop where
  ink : Text.isBlank first = false
  /-- The token opens no comment. -/
  slash : first = '/' → rest = []
  reads : ∀ more line, readItem first (rest ++ blank :: more) line =
    ⟨.ok ⟨token, line⟩, blank :: more, line + (first :: rest).count '\n'⟩

theorem readsOff_word {token : Token} {first blank : Char} {rest : List Char}
    (hfirst : isNameStart first = true) (hrest : ∀ c ∈ rest, isNamePart c = true)
    (htoken : wordToken (first :: rest) = token) (hblank : Text.isBlank blank = true) :
    ReadsOff token first rest blank where
  ink := isBlank_eq_false_of_isNamePart (isNamePart_of_isNameStart hfirst)
  slash := by
    rintro rfl
    exact absurd hfirst (by decide)
  reads more line := by
    rw [readItem_word hfirst hrest hblank, htoken, count_breaks_word]
    · rfl
    · exact List.forall_mem_cons.mpr ⟨isNamePart_of_isNameStart hfirst, hrest⟩

theorem readsOff_sign (sign : Punct) {first blank : Char} {rest : List Char}
    (htext : sign.text.toList = first :: rest) (hblank : Text.isBlank blank = true) :
    ReadsOff (.punct sign) first rest blank where
  ink := by
    rw [Bool.eq_false_iff]
    intro hfirst
    exact not_mem_sign hfirst sign (htext ▸ List.mem_cons_self)
  slash := by
    rintro rfl
    have hlong : (sign.text.toList.head? == some '/' && sign.text.toList.length != 1) = false := by
      cases sign <;> decide
    rw [htext] at hlong
    exact List.length_eq_zero_iff.mp (by simpa using hlong)
  reads more line := by
    have hread := read?_sign sign hblank more
    have hbreaks : (first :: rest).count '\n' = 0 := by
      rw [← htext]
      exact List.count_eq_zero_of_not_mem (not_mem_sign (by decide) sign)
    rw [htext, List.cons_append] at hread
    rw [readItem, hread, hbreaks]
    rfl

/-- Every spelling of a token is read as the token. -/
theorem Spells.exists_readsOff {token : Token} {text : List Char} (h : Spells token text)
    {blank : Char} (hblank : Text.isBlank blank = true) :
    ∃ first rest, text = first :: rest ∧ ReadsOff token first rest blank := by
  cases h with
  | @ident first rest hfirst hrest hname =>
    refine ⟨first, rest, rfl, readsOff_word ?_ ?_ (wordToken_ident hname) hblank⟩
    · simpa [isNameStart] using hfirst
    · intro c hc
      simpa [isNamePart] using hrest c hc
  | @number first rest hdigits hvalue =>
    have hword : ∀ c ∈ first :: rest, isNamePart c = true :=
      fun c hc => isNamePart_of_isDigit (hdigits c hc)
    refine ⟨first, rest, rfl, ?_, ?_, fun more line => ?_⟩
    · exact isBlank_eq_false_of_isNamePart (hword first List.mem_cons_self)
    · rintro rfl
      exact absurd (hdigits '/' List.mem_cons_self) (by decide)
    · rw [readItem_number hdigits hvalue hblank, count_breaks_word hword]
      rfl
  | @str text written hquotes =>
    refine ⟨'"', written ++ ['"'], rfl, by decide, by simp, fun more line => ?_⟩
    rw [readItem, read?_eq_none (.inr rfl), List.append_assoc, List.singleton_append]
    simp only [if_true, readString_written hquotes, List.reverse_nil, List.nil_append]
    simp
  | keyword word =>
    obtain ⟨first, rest, htext, hfirst, hrest⟩ := exists_keyword_chars word
    refine ⟨first, rest, htext, readsOff_word hfirst hrest ?_ hblank⟩
    rw [← htext, wordToken_keyword]
  | punct sign =>
    obtain ⟨first, rest, htext⟩ := List.exists_cons_of_ne_nil (Punct.text_ne_nil sign)
    exact ⟨first, rest, htext, readsOff_sign sign htext hblank⟩

theorem ReadsOff.skipTrivia_eq {token : Token} {first blank : Char} {rest : List Char}
    (h : ReadsOff token first rest blank) (hblank : Text.isBlank blank = true) (more : List Char)
    (line : Nat) :
    skipTrivia .blank (first :: (rest ++ blank :: more)) line =
      .ok (first :: (rest ++ blank :: more), line) := by
  have hslash : blank ≠ '/' := ne_of_isBlank hblank (by decide)
  have hstar : blank ≠ '*' := ne_of_isBlank hblank (by decide)
  have hink := h.ink
  rw [skipTrivia.eq_def]
  split
  · simp_all
  · next hcs =>
    obtain ⟨rfl, hbehind⟩ := List.cons.inj hcs
    rw [h.slash rfl] at hbehind
    exact absurd (List.cons.inj hbehind).1 hslash
  · next hcs =>
    obtain ⟨rfl, hbehind⟩ := List.cons.inj hcs
    rw [h.slash rfl] at hbehind
    exact absurd (List.cons.inj hbehind).1 hstar
  all_goals simp_all

/-! ## Reading texts -/

theorem itemsFrom_eof {cs : List Char} {line behind : Nat} (taken : List Item)
    (h : skipTrivia .blank cs line = .ok ([], behind)) :
    itemsFrom cs line taken = (.ok ⟨.eof, behind⟩ :: taken).reverse := by
  rw [itemsFrom]
  split <;> simp_all

theorem itemsFrom_item {cs rest : List Char} {first : Char} {line behind : Nat} (taken : List Item)
    (h : skipTrivia .blank cs line = .ok (first :: rest, behind)) :
    itemsFrom cs line taken =
      itemsFrom (readItem first rest behind).rest (readItem first rest behind).line
        ((readItem first rest behind).item :: taken) := by
  rw [itemsFrom]
  split <;> simp_all

/-- A token as it is written, and the blanks and comments behind it, a blank first. -/
structure SpelledToken where
  token : Token
  text : List Char
  spells : Spells token text
  blank : Char
  isBlank : Text.isBlank blank = true
  gaps : List Gap

/-- A token with what follows it, as it is written. -/
def SpelledToken.chars (piece : SpelledToken) : List Char :=
  piece.text ++ piece.blank :: gapChars piece.gaps

/-- The tokens of a text and its end, behind the characters `before`. The line of a token is one
more than the number of line breaks in front of its first character. -/
def lexemesFrom (before : List Char) : List SpelledToken → List Lexeme
  | [] => [⟨.eof, 1 + before.count '\n'⟩]
  | piece :: rest =>
    ⟨piece.token, 1 + before.count '\n'⟩ :: lexemesFrom (before ++ piece.chars) rest

theorem itemsFrom_pieces (pieces : List SpelledToken) (lead : List Gap) (before : List Char)
    (taken : List Item) :
    itemsFrom (gapChars lead ++ pieces.flatMap SpelledToken.chars) (1 + before.count '\n') taken =
      taken.reverse ++ (lexemesFrom (before ++ gapChars lead) pieces).map .ok := by
  induction pieces generalizing lead before taken with
  | nil =>
    have hend : skipTrivia .blank (gapChars lead ++ [].flatMap SpelledToken.chars)
        (1 + before.count '\n') = .ok ([], 1 + (before ++ gapChars lead).count '\n') := by
      rw [skipTrivia_gaps, List.count_append, Nat.add_assoc]
      rfl
    rw [itemsFrom_eof taken hend, lexemesFrom]
    simp
  | cons piece rest ih =>
    obtain ⟨first, others, htext, hreads⟩ := piece.spells.exists_readsOff piece.isBlank
    -- The blanks and comments behind the token lead the rest of the text.
    have hrest : piece.blank :: (gapChars piece.gaps ++ rest.flatMap SpelledToken.chars) =
        gapChars (.blank piece.blank piece.isBlank :: piece.gaps) ++
          rest.flatMap SpelledToken.chars := rfl
    have hbefore : before ++ gapChars lead ++ piece.chars =
        before ++ gapChars lead ++ piece.text ++
          gapChars (.blank piece.blank piece.isBlank :: piece.gaps) := by
      rw [SpelledToken.chars, List.append_assoc (before ++ gapChars lead)]
      rfl
    have hstart : skipTrivia .blank (gapChars lead ++ (piece :: rest).flatMap SpelledToken.chars)
        (1 + before.count '\n') =
          .ok (first :: (others ++ piece.blank :: (gapChars piece.gaps ++
            rest.flatMap SpelledToken.chars)), 1 + (before ++ gapChars lead).count '\n') := by
      rw [skipTrivia_gaps, List.flatMap_cons, SpelledToken.chars, htext, List.count_append,
        Nat.add_assoc, ← hreads.skipTrivia_eq piece.isBlank]
      simp
    rw [itemsFrom_item taken hstart, hreads.reads, hrest, ← htext, Nat.add_assoc,
      ← List.count_append, ih, lexemesFrom, hbefore]
    simp

/-! ## Writing tokens -/

/-- All tokens can be written but the end of the text, malformed names and large numbers. -/
def Token.Writable : Token → Prop
  | .ident name => ∃ first rest, name.toList = first :: rest ∧
      (first.isAlpha = true ∨ first = '_') ∧ (∀ c ∈ rest, c.isAlphanum = true ∨ c = '_') ∧
      ∀ keyword : Keyword, keyword.text ≠ name
  | .number value => value < 2 ^ 31
  | .str _ | .keyword _ | .punct _ => True
  | .eof => False

/-- A character as it is written between quotes. -/
def escape (c : Char) : List Char :=
  if c = '"' then ['\\', '"'] else if c = '\\' then ['\\', '\\']
  else if c = '\n' then ['\\', 'n'] else [c]

/-- One way to write a token. -/
def Token.spelling : Token → List Char
  | .ident name => name.toList
  | .number value => Nat.toDigits 10 value
  | .str text => '"' :: (text.toList.flatMap escape ++ ['"'])
  | .keyword word => word.text.toList
  | .punct sign => sign.text.toList
  | .eof => []

theorem quotes_escape (text : List Char) : Quotes text (text.flatMap escape) := by
  induction text with
  | nil => exact .nil
  | cons c text ih =>
    rw [List.flatMap_cons, escape]
    split
    · next h => exact h ▸ .quote ih
    · split
      · next h => exact h ▸ .backslash ih
      · split
        · next h => exact h ▸ .lineBreak ih
        · exact .plain ‹_› ‹_› ih

theorem decimalValue_toDigits (value : Nat) : Text.decimalValue (Nat.toDigits 10 value) = value :=
  Nat.ofDigitChars_ten_toDigits

theorem Token.spells_spelling {token : Token} (h : token.Writable) :
    Spells token token.spelling := by
  cases token with
  | ident name =>
    obtain ⟨first, rest, hname, hfirst, hrest, hkeyword⟩ := h
    obtain rfl : name = String.ofList (first :: rest) := by rw [← hname, String.ofList_toList]
    rw [Token.spelling, hname]
    exact .ident hfirst hrest hkeyword
  | number value =>
    obtain ⟨first, rest, hdigits⟩ :=
      List.exists_cons_of_ne_nil (Nat.toDigits_ne_nil : Nat.toDigits 10 value ≠ [])
    have hvalue : Text.decimalValue (first :: rest) = value := hdigits ▸ decimalValue_toDigits value
    have hall : ∀ c ∈ first :: rest, c.isDigit = true := by
      intro c hc
      exact Nat.isDigit_of_mem_toDigits (by decide) (by decide) (hdigits ▸ hc)
    rw [Token.spelling, hdigits]
    exact hvalue ▸ .number hall (hvalue.symm ▸ h)
  | str text =>
    have hspells := Spells.str (quotes_escape text.toList)
    rwa [String.ofList_toList] at hspells
  | keyword word => exact .keyword word
  | punct sign => exact .punct sign
  | eof => exact h.elim

/-- Reading undoes writing. Every token but the end can be written, and tokens written with blanks
and comments between them, at least a blank behind each, are read as those tokens and the end, each
with its line, whatever blanks and comments come first. -/
theorem reading_undoes_writing :
    (∀ token : Token, token.Writable → Spells token token.spelling) ∧
      ∀ (lead : List Gap) (pieces : List SpelledToken),
        items (String.ofList (gapChars lead ++ pieces.flatMap SpelledToken.chars)) =
          (lexemesFrom (gapChars lead) pieces).map .ok := by
  refine ⟨fun token h => Token.spells_spelling h, fun lead pieces => ?_⟩
  rw [items, String.toList_ofList]
  exact itemsFrom_pieces pieces lead [] []

/-- A declaration with comments, and a string that goes over two lines. -/
def declarationPieces : List SpelledToken :=
  [⟨.keyword .varWord, _, .keyword .varWord, ' ', rfl,
      [.blockComment "/ two\nlines *".toList (by decide), .blank '\t' rfl]⟩,
    ⟨.ident "x1", _, @Spells.ident 'x' ['1'] (by decide) (by simp)
      (by intro keyword; cases keyword <;> decide), '\n', rfl, []⟩,
    ⟨.punct .assign, _, .punct .assign, ' ', rfl, [.lineComment "/* open".toList (by decide)]⟩,
    ⟨.number 7, _, @Spells.number '0' ['7'] (by simp) (by decide), ' ', rfl, []⟩,
    ⟨.str "a\n\"", _, .str (.plain (by decide) (by decide) (.plain (by decide) (by decide)
      (.quote .nil))), '\n', rfl, []⟩]

theorem declaration_reads_back :
    Spells (.number 70) ['7', '0'] ∧
      items "\nvar /*/ two\nlines **/\tx1\n= ///* open\n07 \"a\n\\\"\"\n" =
        [.ok ⟨.keyword .varWord, 2⟩, .ok ⟨.ident "x1", 3⟩, .ok ⟨.punct .assign, 4⟩,
          .ok ⟨.number 7, 5⟩, .ok ⟨.str "a\n\"", 5⟩, .ok ⟨.eof, 7⟩] := by
  constructor
  · exact reading_undoes_writing.1 (.number 70) (by simp [Token.Writable])
  · exact reading_undoes_writing.2 [.blank '\n' rfl] declarationPieces

end RoomForge.Script
