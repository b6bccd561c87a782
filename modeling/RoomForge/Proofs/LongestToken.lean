import Mathlib.Data.List.TakeWhile
import RoomForge.Proofs.Spelling

set_option autoImplicit false

/-! # The longest token

What one step of reading takes off a text (specification, section 4.1). In front lie blanks and
comments, which are skipped as far as they go; then comes an item. Where it is a token, its
characters are the longest at this place that can be read as one token: `readItem_takesOff`. The
section names no such rule; it is what tells `<=` from `<` and `=`.
-/

namespace RoomForge.Script

/-! ## Blanks and comments -/

/-- Neither a blank nor a comment starts here. -/
def Inked (cs : List Char) : Prop :=
  ∀ c rest, cs = c :: rest →
    Text.isBlank c = false ∧ (c = '/' → rest.head? ≠ some '/' ∧ rest.head? ≠ some '*')

/-- Blanks and comments in front of `rest`, as many as there are. The end of the text may cut off
the last comment. -/
inductive Between : (gap rest : List Char) → Prop where
  | closed (gaps : List Gap) {rest : List Char} (h : Inked rest) : Between (gapChars gaps) rest
  | lineComment (gaps : List Gap) {text : List Char} (h : '\n' ∉ text) :
      Between (gapChars gaps ++ '/' :: '/' :: text) []
  | blockComment (gaps : List Gap) {text : List Char} (h : ¬ ['*', '/'] <:+: text) :
      Between (gapChars gaps ++ '/' :: '*' :: text) []

theorem Between.isBlank_eq_false {gap rest : List Char} {c : Char} (h : Between gap (c :: rest)) :
    Text.isBlank c = false := by
  cases h with
  | closed _ hinked => exact (hinked c rest rfl).1

theorem exists_first_closing {cs : List Char} (h : ['*', '/'] <:+: cs) :
    ∃ text rest, cs = text ++ '*' :: '/' :: rest ∧ ¬ ['*', '/'] <:+: text := by
  induction cs with
  | nil => exact absurd h (by simp)
  | cons c cs ih =>
    rcases List.infix_cons_iff.mp h with ⟨rest, hfirst⟩ | hlater
    · exact ⟨[], rest, hfirst.symm, by simp⟩
    · obtain ⟨text, rest, rfl, htext⟩ := ih hlater
      by_cases hfirst : ['*', '/'] <+: c :: text
      · obtain ⟨tail, htail⟩ := hfirst
        obtain ⟨rfl, rfl⟩ := List.cons.inj htail
        exact ⟨[], tail ++ '*' :: '/' :: rest, rfl, by simp⟩
      · refine ⟨c :: text, rest, rfl, fun hinfix => ?_⟩
        rcases List.infix_cons_iff.mp hinfix with hprefix | hlater
        · exact hfirst hprefix
        · exact htext hlater

/-- Every text starts with blanks and comments, as many as there are. -/
theorem exists_between (cs : List Char) : ∃ gap rest, cs = gap ++ rest ∧ Between gap rest := by
  induction hlength : cs.length using Nat.strong_induction_on generalizing cs with
  | _ length ih =>
    subst hlength
    -- Behind a gap in front the rest of the text is cut in the same way.
    have hgap : ∀ (gap : Gap) (rest : List Char), cs = gap.chars ++ rest →
        ∃ front back, cs = front ++ back ∧ Between front back := by
      intro gap rest hcs
      have hshort : rest.length < cs.length := by
        rw [hcs, List.length_append]
        have hpos : 0 < gap.chars.length := by cases gap <;> simp [Gap.chars]
        omega
      obtain ⟨front, back, rfl, hbetween⟩ := ih rest.length hshort rest rfl
      refine ⟨gap.chars ++ front, back, by rw [hcs, List.append_assoc], ?_⟩
      cases hbetween with
      | closed gaps hinked => exact .closed (gap :: gaps) hinked
      | @lineComment gaps text htext =>
        rw [← List.append_assoc]
        exact .lineComment (gap :: gaps) htext
      | @blockComment gaps text htext =>
        rw [← List.append_assoc]
        exact .blockComment (gap :: gaps) htext
    by_cases hinked : Inked cs
    · exact ⟨[], cs, rfl, .closed [] hinked⟩
    · simp only [Inked, not_forall] at hinked
      obtain ⟨c, rest, rfl, hopen⟩ := hinked
      by_cases hblank : Text.isBlank c = true
      · exact hgap (.blank c hblank) rest rfl
      · obtain ⟨rfl, hhead⟩ : c = '/' ∧ (rest.head? = some '/' ∨ rest.head? = some '*') := by
          simp only [Bool.not_eq_true] at hblank
          simp only [hblank, true_and, not_forall] at hopen
          obtain ⟨hslash, hopen⟩ := hopen
          exact ⟨hslash, by tauto⟩
        rcases hhead with hhead | hhead
        · obtain ⟨rest, rfl⟩ := List.head?_eq_some_iff.mp hhead
          by_cases hbreak : '\n' ∈ rest
          · obtain ⟨text, back, rfl, htext⟩ := List.eq_append_cons_of_mem hbreak
            exact hgap (.lineComment text htext) back (by simp [Gap.chars])
          · exact ⟨_, [], (List.append_nil _).symm, .lineComment [] hbreak⟩
        · obtain ⟨rest, rfl⟩ := List.head?_eq_some_iff.mp hhead
          by_cases hclosing : ['*', '/'] <:+: rest
          · obtain ⟨text, back, rfl, htext⟩ := exists_first_closing hclosing
            exact hgap (.blockComment text htext) back (by simp [Gap.chars])
          · exact ⟨_, [], (List.append_nil _).symm, .blockComment [] hclosing⟩

theorem skipTrivia_inked {cs : List Char} (h : Inked cs) (line : Nat) :
    skipTrivia .blank cs line = .ok (cs, line) := by
  rw [skipTrivia.eq_def]
  split
  · rfl
  · exact absurd rfl ((h _ _ rfl).2 rfl).1
  · exact absurd rfl ((h _ _ rfl).2 rfl).2
  · rw [if_neg (by simp [(h _ _ rfl).1])]
  all_goals simp_all

theorem skipTrivia_lineComment_open {text : List Char} (h : '\n' ∉ text) (line : Nat) :
    skipTrivia .lineComment text line = .ok ([], line) := by
  induction text with
  | nil => rfl
  | cons c text ih =>
    rw [List.mem_cons, not_or] at h
    have hc : c ≠ '\n' := fun heq => h.1 heq.symm
    rw [skipTrivia_lineComment_cons, if_neg hc, lineAfter, if_neg hc]
    exact ih h.2

theorem skipTrivia_blockComment_open {text : List Char} (h : ¬ ['*', '/'] <:+: text) (star : Bool)
    (hstar : star = true → text.head? ≠ some '/') (start line : Nat) :
    skipTrivia (.blockComment start star) text line = .error ⟨start, .unterminatedComment⟩ := by
  induction text generalizing star line with
  | nil => rfl
  | cons c text ih =>
    have hopen : ¬ (star = true ∧ c = '/') := by
      rintro ⟨hstar', rfl⟩
      exact hstar hstar' rfl
    have hnext : decide (c = '*') = true → text.head? ≠ some '/' := by
      intro hc hhead
      obtain ⟨tail, rfl⟩ := List.head?_eq_some_iff.mp hhead
      obtain rfl := of_decide_eq_true hc
      exact h ⟨[], tail, rfl⟩
    rw [skipTrivia_blockComment_cons, if_neg hopen]
    exact ih (fun hinfix => h (List.infix_cons hinfix)) _ hnext _

/-- What is skipped is what lies between, and its line breaks are counted; a comment that the text
does not close is an error. -/
theorem skipTrivia_cases (cs : List Char) (line : Nat) : ∃ gap rest, cs = gap ++ rest ∧
    Between gap rest ∧ (skipTrivia .blank cs line = .ok (rest, line + gap.count '\n') ∨
      rest = [] ∧ ∃ start, skipTrivia .blank cs line = .error ⟨start, .unterminatedComment⟩) := by
  obtain ⟨gap, rest, rfl, hbetween⟩ := exists_between cs
  refine ⟨gap, rest, rfl, hbetween, ?_⟩
  cases hbetween with
  | closed gaps hinked =>
    rw [skipTrivia_gaps, skipTrivia_inked hinked]
    exact .inl rfl
  | @lineComment gaps text htext =>
    have hcount : ('/' :: '/' :: text).count '\n' = 0 := by
      simp [List.count_eq_zero_of_not_mem htext]
    rw [List.append_nil, skipTrivia_gaps, List.count_append, hcount]
    exact .inl (skipTrivia_lineComment_open htext _)
  | @blockComment gaps text htext =>
    rw [List.append_nil, skipTrivia_gaps]
    exact .inr ⟨rfl, _, skipTrivia_blockComment_open htext false (by simp) _ _⟩

/-! ## The longest token -/

/-- The text of a token at the head of `cs`, where no token has a longer one. -/
structure LongestToken (token : Token) (text cs : List Char) : Prop where
  spells : Spells token text
  heads : text <+: cs
  longest : ∀ other longer, Spells other longer → longer <+: cs → longer.length ≤ text.length

/-- The kinds of tokens, told apart by what they are written with. -/
theorem Spells.kinds {token : Token} {text : List Char} (h : Spells token text) :
    (∃ sign : Punct, text = sign.text.toList) ∨
      (∃ meant written, text = '"' :: (written ++ ['"']) ∧ Quotes meant written) ∨
      (∃ first rest, text = first :: rest ∧ ∀ c ∈ first :: rest, c.isDigit = true) ∨
      ∃ first rest, text = first :: rest ∧ isNameStart first = true ∧
        ∀ c ∈ rest, isNamePart c = true := by
  cases h with
  | @ident first rest hfirst hrest _ =>
    refine .inr (.inr (.inr ⟨first, rest, rfl, by simpa [isNameStart] using hfirst, ?_⟩))
    intro c hc
    simpa [isNamePart] using hrest c hc
  | @number first rest hdigits _ => exact .inr (.inr (.inl ⟨first, rest, rfl, hdigits⟩))
  | @str meant written hquotes => exact .inr (.inl ⟨meant, written, rfl, hquotes⟩)
  | keyword word => exact .inr (.inr (.inr (exists_keyword_chars word)))
  | punct sign => exact .inl ⟨sign, rfl⟩

/-- The kind of a token is known by the first character of the text it is read off. -/
theorem Spells.kinds_at {token : Token} {text rest : List Char} {c : Char} (h : Spells token text)
    (hheads : text <+: c :: rest) :
    (∃ sign : Punct, text = sign.text.toList) ∨
      (c = '"' ∧ ∃ meant written, text = '"' :: (written ++ ['"']) ∧ Quotes meant written) ∨
      (c.isDigit = true ∧ ∀ d ∈ text, d.isDigit = true) ∨
      (isNameStart c = true ∧ ∀ d ∈ text, isNamePart d = true) := by
  have hfirst : ∀ first others, text = first :: others → first = c := by
    rintro first others rfl
    exact (List.cons_prefix_cons.mp hheads).1
  rcases h.kinds with hsign | ⟨meant, written, rfl, hquotes⟩ | ⟨first, others, rfl, hdigits⟩ |
    ⟨first, others, rfl, hstart, hparts⟩
  · exact .inl hsign
  · exact .inr (.inl ⟨(hfirst _ _ rfl).symm, meant, written, rfl, hquotes⟩)
  · obtain rfl := hfirst _ _ rfl
    exact .inr (.inr (.inl ⟨hdigits _ List.mem_cons_self, hdigits⟩))
  · obtain rfl := hfirst _ _ rfl
    exact .inr (.inr (.inr ⟨hstart,
      List.forall_mem_cons.mpr ⟨isNamePart_of_isNameStart hstart, hparts⟩⟩))

theorem Spells.ne_nil {token : Token} {text : List Char} (h : Spells token text) : text ≠ [] := by
  rcases h.kinds with ⟨sign, rfl⟩ | ⟨_, _, rfl, _⟩ | ⟨_, _, rfl, _⟩ | ⟨_, _, rfl, _⟩
  · exact sign.text_ne_nil
  all_goals simp

theorem Spells.ne_eof {token : Token} {text : List Char} (h : Spells token text) :
    token ≠ .eof := by
  rintro rfl
  cases h

/-- Signs of two characters are looked for before those of one. -/
theorem Punct.length_le_of_read? {cs rest : List Char} {sign other : Punct}
    (h : Punct.read? cs = some (sign, rest)) (hother : other.text.toList <+: cs) :
    other.text.toList.length ≤ sign.text.toList.length := by
  have horder : Punct.all.Pairwise fun first second =>
      second.text.toList.length ≤ first.text.toList.length := by decide
  obtain ⟨found, hfound, hpair⟩ := Option.map_eq_some_iff.mp h
  obtain ⟨rfl, -⟩ := Prod.mk.inj hpair
  obtain ⟨-, earlier, later, hall, hearlier⟩ := List.find?_eq_some_iff_append.mp hfound
  have hmem := Punct.mem_all other
  rw [hall] at hmem horder
  rcases List.mem_append.mp hmem with hmem | hmem
  · have hmiss := hearlier other hmem
    rw [List.isPrefixOf_iff_prefix.mpr hother] at hmiss
    exact absurd hmiss (by decide)
  · rcases List.mem_cons.mp hmem with rfl | hmem
    · exact Nat.le_refl _
    · exact (List.pairwise_cons.mp (List.pairwise_append.mp horder).2.1).1 other hmem

/-- What is no sign starts with a character that no sign starts with. -/
theorem length_le_of_sign {rest behind text : List Char} {c : Char} {sign : Punct} {token : Token}
    (h : Punct.read? (c :: rest) = some (sign, behind)) (htoken : Spells token text)
    (hheads : text <+: c :: rest) : text.length ≤ sign.text.toList.length := by
  have hnone : ¬ (isNamePart c = true ∨ c = '"') := by
    intro hc
    rw [read?_eq_none hc] at h
    exact absurd h (by simp)
  rcases htoken.kinds_at hheads with ⟨other, rfl⟩ | ⟨hquote, -⟩ | ⟨hdigit, -⟩ | ⟨hstart, -⟩
  · exact Punct.length_le_of_read? h hheads
  · exact absurd (.inr hquote) hnone
  · exact absurd (.inl (isNamePart_of_isDigit hdigit)) hnone
  · exact absurd (.inl (isNamePart_of_isNameStart hstart)) hnone

/-- No sign starts with a character that names, numbers and strings start with. -/
theorem not_sign_at_head {c : Char} (h : isNamePart c = true ∨ c = '"') (rest : List Char)
    (sign : Punct) : ¬ sign.text.toList <+: c :: rest := by
  intro hheads
  have hnone := read?_eq_none h rest
  rw [Punct.read?, Option.map_eq_none_iff, List.find?_eq_none] at hnone
  exact hnone sign (Punct.mem_all sign) (List.isPrefixOf_iff_prefix.mpr hheads)

/-- A row of characters of one class is no longer than all of them that stand in front. -/
theorem length_le_takeWhile {p : Char → Bool} {text cs : List Char} (hheads : text <+: cs)
    (htext : ∀ c ∈ text, p c = true) : text.length ≤ (cs.takeWhile p).length := by
  obtain ⟨tail, rfl⟩ := hheads
  rw [List.takeWhile_append_of_pos htext, List.length_append]
  exact Nat.le_add_right _ _

/-- A string ends with its first closing quote. -/
theorem length_eq_of_quotes {meant other written others cs : List Char} (h : Quotes meant written)
    (hother : Quotes other others) (hheads : written ++ ['"'] <+: cs)
    (hheads' : others ++ ['"'] <+: cs) : others.length = written.length := by
  obtain ⟨rest, rfl⟩ := hheads
  obtain ⟨rest', hrest'⟩ := hheads'
  rw [List.append_assoc, List.singleton_append, List.append_assoc, List.singleton_append] at hrest'
  have hread := readString_written h 0 rest 0 []
  rw [← hrest', readString_written hother] at hread
  obtain rfl : rest' = rest := congrArg Reading.rest hread
  simpa using congrArg List.length hrest'

/-- A word is written as it stands, whether it is a keyword or a name. -/
theorem spells_wordToken {c : Char} {parts : List Char} (hc : isNameStart c = true)
    (hparts : ∀ d ∈ parts, isNamePart d = true) : Spells (wordToken (c :: parts)) (c :: parts) := by
  simp only [wordToken]
  split
  · next keyword hkeyword =>
    have htext : keyword.text.toList = c :: parts := by
      rw [Keyword.text_of_ofText? hkeyword, String.toList_ofList]
    exact htext ▸ .keyword keyword
  · next hnone =>
    rw [Keyword.ofText?, List.find?_eq_none] at hnone
    refine .ident (by simpa [isNameStart] using hc) (fun d hd => ?_) fun keyword htext => ?_
    · simpa [isNamePart] using hparts d hd
    · exact hnone keyword (Keyword.mem_all keyword) (by simp [htext])

section

variable (rest : List Char)

theorem longestToken_sign {c : Char} {behind : List Char} {sign : Punct}
    (h : Punct.read? (c :: rest) = some (sign, behind)) :
    LongestToken (.punct sign) sign.text.toList (c :: rest) where
  spells := .punct sign
  heads := Punct.eq_text_append_of_read? h ▸ List.prefix_append _ _
  longest _ _ := length_le_of_sign h

theorem longestToken_string {meant written : List Char} (h : Quotes meant written) :
    LongestToken (.str (String.ofList meant)) ('"' :: (written ++ ['"']))
      ('"' :: (written ++ ['"']) ++ rest) where
  spells := .str h
  heads := List.prefix_append _ _
  longest other longer hother hheads := by
    rcases hother.kinds_at hheads with ⟨sign, rfl⟩ | ⟨-, _, others, rfl, hothers⟩ | ⟨hdigit, -⟩ |
      ⟨hstart, -⟩
    · exact absurd hheads (not_sign_at_head (.inr rfl) _ sign)
    · have hlength := length_eq_of_quotes h hothers (List.prefix_append _ rest)
        (List.cons_prefix_cons.mp hheads).2
      simp [hlength]
    · exact absurd hdigit (by decide)
    · exact absurd hstart (by decide)

theorem longestToken_number {c : Char} (hc : c.isDigit = true)
    (hvalue : Text.decimalValue (c :: rest.takeWhile Char.isDigit) < 2 ^ 31) :
    LongestToken (.number (Text.decimalValue (c :: rest.takeWhile Char.isDigit)))
      (c :: rest.takeWhile Char.isDigit) (c :: rest) where
  spells := .number (List.forall_mem_cons.mpr ⟨hc, fun d hd => List.mem_takeWhile_imp hd⟩) hvalue
  heads := List.cons_prefix_cons.mpr ⟨rfl, List.takeWhile_prefix _⟩
  longest other longer hother hheads := by
    have hpart := isNamePart_of_isDigit hc
    rcases hother.kinds_at hheads with ⟨sign, rfl⟩ | ⟨hquote, -⟩ | ⟨-, hdigits⟩ | ⟨hstart, -⟩
    · exact absurd hheads (not_sign_at_head (.inl hpart) _ sign)
    · exact absurd hquote (ne_quote_of_isNamePart hpart)
    · have hlength := length_le_takeWhile hheads hdigits
      rwa [List.takeWhile_cons_of_pos hc] at hlength
    · exact absurd hc (by simp [isDigit_eq_false_of_isNameStart hstart])

theorem longestToken_word {c : Char} (hc : isNameStart c = true) :
    LongestToken (wordToken (c :: rest.takeWhile isNamePart)) (c :: rest.takeWhile isNamePart)
      (c :: rest) where
  spells := spells_wordToken hc fun d hd => List.mem_takeWhile_imp hd
  heads := List.cons_prefix_cons.mpr ⟨rfl, List.takeWhile_prefix _⟩
  longest other longer hother hheads := by
    have hpart := isNamePart_of_isNameStart hc
    rcases hother.kinds_at hheads with ⟨sign, rfl⟩ | ⟨hquote, -⟩ | ⟨hdigit, -⟩ | ⟨-, hparts⟩
    · exact absurd hheads (not_sign_at_head (.inl hpart) _ sign)
    · exact absurd hquote (ne_quote_of_isNamePart hpart)
    · exact absurd hdigit (by simp [isDigit_eq_false_of_isNameStart hc])
    · have hlength := length_le_takeWhile hheads hparts
      rwa [List.takeWhile_cons_of_pos hpart] at hlength

end

/-! ## Items -/

/-- The items that nothing follows: the end of the text, and a comment that it does not close. -/
def EndsText : Item → Prop
  | .ok lexeme => lexeme.token = .eof
  | .error e => e.fault = .unterminatedComment

/-- What was read is `text` at the head of `cs`, which starts on `line`. Where it is a token, no
token with a longer text could have been read. -/
structure Reading.TakesOff (reading : Reading) (line : Nat) (text cs : List Char) : Prop where
  cut : cs = text ++ reading.rest
  ne_nil : text ≠ []
  line_eq : reading.line = line + text.count '\n'
  inner : ¬ EndsText reading.item
  token : ∀ lexeme, reading.item = .ok lexeme →
    lexeme.line = line ∧ LongestToken lexeme.token text cs

section

variable {line behind : Nat} {text rest cs : List Char}

theorem Reading.TakesOff.of_error {e : SyntaxError} (hne : text ≠ [])
    (hfault : e.fault ≠ .unterminatedComment) (hcut : cs = text ++ rest)
    (hline : behind = line + text.count '\n') :
    Reading.TakesOff ⟨.error e, rest, behind⟩ line text cs where
  cut := hcut
  ne_nil := hne
  line_eq := hline
  inner := hfault
  token lexeme h := absurd h (by simp)

theorem Reading.TakesOff.of_token {token : Token} (h : LongestToken token text cs)
    (hcut : cs = text ++ rest) (hline : behind = line + text.count '\n') :
    Reading.TakesOff ⟨.ok ⟨token, line⟩, rest, behind⟩ line text cs where
  cut := hcut
  ne_nil := h.spells.ne_nil
  line_eq := hline
  inner := h.spells.ne_eof
  token lexeme hlexeme := by
    obtain rfl := Except.ok.inj hlexeme
    exact ⟨rfl, h⟩

end

theorem Quotes.escaped {c meant : Char} {text written : List Char} (hc : unescape? c = some meant)
    (h : Quotes text written) : Quotes (meant :: text) ('\\' :: c :: written) := by
  unfold unescape? at hc
  split at hc
  · exact Option.some.inj hc ▸ h.lineBreak
  · exact Option.some.inj hc ▸ h.quote
  · exact Option.some.inj hc ▸ h.backslash
  · exact absurd hc (by simp)

theorem ne_lineBreak_of_unescape? {c meant : Char} (hc : unescape? c = some meant) : c ≠ '\n' := by
  rintro rfl
  exact absurd hc (by simp [unescape?])

/-- A string is read up to its closing quote, to a malformed escape, or to the end of the text. -/
theorem readString_cases (start : Nat) (cs : List Char) (line : Nat) (taken : List Char) :
    ∃ text rest, cs = text ++ rest ∧
      ((∃ e, e.fault ≠ .unterminatedComment ∧
        readString start cs line taken = ⟨.error e, rest, line + text.count '\n'⟩) ∨
      ∃ meant written, text = written ++ ['"'] ∧ Quotes meant written ∧
        readString start cs line taken =
          ⟨.ok ⟨.str (String.ofList (taken.reverse ++ meant)), start⟩, rest,
            line + text.count '\n'⟩) := by
  fun_induction readString start cs line taken with
  | case1 line taken => exact ⟨[], [], rfl, .inl ⟨_, by simp, rfl⟩⟩
  | case2 rest line taken => exact ⟨['"'], rest, rfl, .inr ⟨[], [], rfl, .nil, by simp⟩⟩
  | case3 line taken => exact ⟨['\\'], [], rfl, .inl ⟨_, by simp, rfl⟩⟩
  | case4 c rest line taken meant hmeant ih =>
    obtain ⟨text, behind, rfl, hread⟩ := ih
    have hcount : ('\\' :: c :: text).count '\n' = text.count '\n' := by
      simp [ne_lineBreak_of_unescape? hmeant]
    refine ⟨'\\' :: c :: text, behind, rfl, ?_⟩
    rw [hcount]
    rcases hread with ⟨e, hfault, hread⟩ | ⟨others, written, rfl, hquotes, hread⟩
    · exact .inl ⟨e, hfault, hread⟩
    · exact .inr ⟨meant :: others, '\\' :: c :: written, rfl, hquotes.escaped hmeant,
        by simpa using hread⟩
  | case5 c rest line taken hnone =>
    refine ⟨['\\', c], rest, rfl, .inl ⟨⟨lineAfter c line, .unknownEscape c⟩, by simp, ?_⟩⟩
    rw [lineAfter_eq, List.count_cons_of_ne (show '\\' ≠ '\n' by decide)]
  | case6 c rest line taken hquote hend hslash ih =>
    have hplain : c ≠ '\\' := by
      rintro rfl
      cases rest with
      | nil => exact hend rfl rfl
      | cons next others => exact hslash next others rfl rfl
    obtain ⟨text, behind, rfl, hread⟩ := ih
    have hcount : lineAfter c line + text.count '\n' = line + (c :: text).count '\n' := by
      rw [lineAfter_eq, Nat.add_assoc, ← List.count_append, List.singleton_append]
    refine ⟨c :: text, behind, rfl, ?_⟩
    rw [← hcount]
    rcases hread with ⟨e, hfault, hread⟩ | ⟨others, written, rfl, hquotes, hread⟩
    · exact .inl ⟨e, hfault, hread⟩
    · exact .inr ⟨c :: others, c :: written, rfl, .plain hquote hplain hquotes,
        by simpa using hread⟩

theorem takesOff_string (rest : List Char) (line : Nat) :
    ∃ text, (readItem '"' rest line).TakesOff line text ('"' :: rest) := by
  have hread : readItem '"' rest line = readString line rest line [] := by
    rw [readItem, read?_eq_none (.inr rfl)]
    exact if_pos rfl
  have hline (text : List Char) : line + text.count '\n' = line + ('"' :: text).count '\n' := by
    rw [List.count_cons_of_ne (by decide)]
  rw [hread]
  obtain ⟨text, behind, rfl, ⟨e, hfault, hstring⟩ | ⟨meant, written, rfl, hquotes, hstring⟩⟩ :=
    readString_cases line rest line []
  · rw [hstring]
    exact ⟨'"' :: text, .of_error (List.cons_ne_nil _ _) hfault rfl (hline text)⟩
  · rw [hstring]
    exact ⟨_, .of_token (longestToken_string behind hquotes) rfl (hline _)⟩

theorem takesOff_number {c : Char} (hc : c.isDigit = true) (rest : List Char) (line : Nat) :
    ∃ text, (readItem c rest line).TakesOff line text (c :: rest) := by
  have hpart := isNamePart_of_isDigit hc
  have hline : line = line + (c :: rest.takeWhile Char.isDigit).count '\n' := by
    rw [count_breaks_word, Nat.add_zero]
    exact List.forall_mem_cons.mpr
      ⟨hpart, fun d hd => isNamePart_of_isDigit (List.mem_takeWhile_imp hd)⟩
  have hcut : c :: rest = c :: rest.takeWhile Char.isDigit ++ rest.dropWhile Char.isDigit := by
    rw [List.cons_append, List.takeWhile_append_dropWhile]
  rw [readItem, read?_eq_none (.inl hpart)]
  simp only [if_neg (ne_quote_of_isNamePart hpart), if_pos hc, numberToken]
  cases hvalue : Text.decimalBelow? 0x80000000 (c :: rest.takeWhile Char.isDigit) with
  | none => exact ⟨_, .of_error (List.cons_ne_nil _ _) (by simp) hcut hline⟩
  | some value =>
    obtain ⟨rfl, hsmall⟩ := (Text.decimalBelow?_eq_some_iff (by decide)).mp hvalue
    exact ⟨_, .of_token (longestToken_number rest hc hsmall) hcut hline⟩

theorem takesOff_word {c : Char} (hc : isNameStart c = true) (rest : List Char) (line : Nat) :
    ∃ text, (readItem c rest line).TakesOff line text (c :: rest) := by
  have hpart := isNamePart_of_isNameStart hc
  have hline : line = line + (c :: rest.takeWhile isNamePart).count '\n' := by
    rw [count_breaks_word, Nat.add_zero]
    exact List.forall_mem_cons.mpr ⟨hpart, fun d hd => List.mem_takeWhile_imp hd⟩
  have hcut : c :: rest = c :: rest.takeWhile isNamePart ++ rest.dropWhile isNamePart := by
    rw [List.cons_append, List.takeWhile_append_dropWhile]
  rw [readItem, read?_eq_none (.inl hpart)]
  simp only [if_neg (ne_quote_of_isNamePart hpart), isDigit_eq_false_of_isNameStart hc,
    Bool.false_eq_true, if_false, if_pos hc]
  exact ⟨_, .of_token (longestToken_word rest hc) hcut hline⟩

/-- Every item takes off its own characters. A character that starts no token is no blank, hence no
line break. -/
theorem readItem_takesOff {c : Char} (hc : Text.isBlank c = false) (rest : List Char) (line : Nat) :
    ∃ text, (readItem c rest line).TakesOff line text (c :: rest) := by
  by_cases hquote : c = '"'
  · rw [hquote]
    exact takesOff_string rest line
  by_cases hdigit : c.isDigit = true
  · exact takesOff_number hdigit rest line
  by_cases hstart : isNameStart c = true
  · exact takesOff_word hstart rest line
  unfold readItem
  split
  · next sign behind hsign =>
    have hline : line = line + sign.text.toList.count '\n' := by
      rw [List.count_eq_zero_of_not_mem (not_mem_sign (by decide) sign), Nat.add_zero]
    exact ⟨_, .of_token (longestToken_sign rest hsign) (Punct.eq_text_append_of_read? hsign) hline⟩
  · have hline : line = line + [c].count '\n' := by
      have hbreak : c ≠ '\n' := (ne_of_isBlank (by decide) hc).symm
      simp [hbreak]
    rw [if_neg hquote, if_neg hdigit, if_neg hstart]
    exact ⟨[c], .of_error (List.cons_ne_nil _ _) (by simp) rfl hline⟩

end RoomForge.Script
