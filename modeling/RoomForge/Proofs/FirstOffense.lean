import RoomForge.Proofs.SightedReaders
import RoomForge.Proofs.Slices

set_option autoImplicit false

/-! # The first offense

A text that is no script is refused at the first item that no script could have there
(specification, section 4.1). Up to that item the tokens can be completed to a script; with it they
cannot. The error is the item itself where that is a malformed token, and otherwise names the line
of the token: `errors_name_the_first_offense`. The section asks for a line and says nothing about
which.
-/

namespace RoomForge.Script

namespace Grammar

/-- A script without the end of its text. -/
def Unended (lexemes : List Lexeme) (script : Declarations) : Prop :=
  ∃ line, Whole (lexemes ++ [⟨.eof, line⟩]) script

theorem unended_nil : Unended [] {} :=
  ⟨1, .eof 1⟩

theorem begins_unended : Begins Unended [] :=
  .of_phrase unended_nil

theorem Unended.const {lexemes rest : List Lexeme} {constant : Constant} {script : Declarations}
    (hrest : Unended rest script) (line : Nat) (h : ConstantTail lexemes constant) :
    ∃ whole, Unended (word .constWord line :: (lexemes ++ rest)) whole := by
  obtain ⟨last, hwhole⟩ := hrest
  exact ⟨_, last, by simpa using Whole.const line h hwhole⟩

theorem Unended.routine {lexemes rest : List Lexeme} {routine : Routine} {script : Declarations}
    (hrest : Unended rest script) (h : Function lexemes routine) :
    ∃ whole, Unended (lexemes ++ rest) whole := by
  obtain ⟨last, hwhole⟩ := hrest
  exact ⟨_, last, by simpa using Whole.routine h hwhole⟩

/-- Where a script fails to be read, what was read before starts a script, and every text that goes
on with the same token fails to be read. -/
theorem readScript_blamed {fuel fuel' : Nat} {constants constants' : List Constant}
    {routines routines' : List Routine} {items others : List Item} (hfuel : fuel ≤ fuel') :
    Blamed (Begins Unended) (readScript fuel constants routines items)
      (readScript fuel' constants' routines' others) items others := by
  induction fuel generalizing fuel' constants constants' routines routines' items others with
  | zero =>
    intro e he
    rw [readScript] at he
    refine blamed_outOfFuel (α := Declarations) begins_unended e ?_
    cases hrun : outOfFuel (α := Declarations) items with
    | ok result => exact absurd hrun outOfFuel_ne_ok
    | error found => simpa [hrun, Except.map] using he
  | succ fuel ih =>
    obtain ⟨more, rfl, hle⟩ := exists_of_succ_le hfuel
    rw [readScript, readScript]
    refine .look begins_unended fun token line _ hpeek => ?_
    have hroutine : Blamed (Begins Unended)
        (readRoutine fuel items >>= fun read =>
          readScript fuel constants (read.1 :: routines) read.2)
        (readRoutine more others >>= fun read =>
          readScript more constants' (read.1 :: routines') read.2) items others := by
      refine .bind ((readRoutine_sighted hle).mono fun _ h => ?_)
        fun routine _ front _ _ hread htakes _ => ?_
      · exact h.within [] [] (by simp) fun h =>
          by simpa using unended_nil.routine h
      · have hfunction := htakes.phrase (readRoutine_recognized hread)
        exact (ih hle).mono fun _ h => h.within front [] (by simp) fun h =>
          by simpa using h.routine hfunction
    cases token with
    | eof => exact blamed_ok
    | keyword keyword =>
      cases keyword with
      | constWord =>
        refine .consume hpeek (by simp) (.bind (readConstant_sighted.mono fun _ h => ?_)
          fun constant _ front _ _ hread htakes _ => ?_)
        · exact h.within [word .constWord line] [] (by simp) fun h =>
            by simpa using unended_nil.const line h
        · have hconstant := htakes.phrase (readConstant_recognized hread)
          exact (ih hle).mono fun _ h => h.within (word .constWord line :: front) [] (by simp)
            fun h => by simpa using h.const line hconstant
      | functionWord => exact hroutine
      | inlineWord => exact hroutine
      | _ => exact blamed_error hpeek begins_unended rfl (.unexpected _ _)
    | _ => exact blamed_error hpeek begins_unended rfl (.unexpected _ _)

end Grammar

/-! ## Texts with the same tokens -/

theorem Spells.writable {token : Token} {text : List Char} (h : Spells token text) :
    token.Writable := by
  cases h with
  | @ident first rest hfirst hrest hname =>
    exact ⟨first, rest, String.toList_ofList, hfirst, hrest, hname⟩
  | number _ hvalue => exact hvalue
  | str | keyword | punct => trivial

/-- What was read can be written. -/
theorem writable_of_mem_items {source : String} {lexeme : Lexeme} (h : .ok lexeme ∈ items source)
    (hne : lexeme.token ≠ .eof) : lexeme.token.Writable := by
  rw [← items_eq_slices] at h
  obtain ⟨slice, hslice, hitem⟩ := List.mem_map.mp h
  obtain ⟨before, after, hslices⟩ := List.append_of_mem hslice
  exact ((slice_stands hslices).longest lexeme.token lexeme.line hitem hne).spells.writable

/-- Tokens that go on with the next one of `rest` are a twin. -/
theorem exists_twin {front lexemes : List Lexeme} {rest : List Item} {next : Lexeme}
    (hnext : peek rest = .ok next)
    (h : front.map Lexeme.token ++ [next.token] <+: lexemes.map Lexeme.token) :
    ∃ behind, Twin front rest (itemsOf lexemes) behind := by
  obtain ⟨others, hothers⟩ := h
  rw [List.append_assoc, List.singleton_append] at hothers
  obtain ⟨copy, behind, rfl, hcopy, hbehind⟩ := List.map_eq_append_iff.mp hothers.symm
  obtain ⟨twin, more, rfl, htwin, -⟩ := List.map_eq_cons_iff.mp hbehind
  exact ⟨_, copy, next, twin, itemsOf more, hcopy, hnext, htwin, rfl, by simp⟩

/-- A text that is refused has no script's tokens as far as it blames an item. -/
theorem exists_blamed {source : String} {e : SyntaxError} (h : parse source = .error e)
    {lexemes : List Lexeme} {script : Declarations} (hwhole : Grammar.Whole lexemes script) :
    ∃ front rest, Takes front (items source) rest ∧ Grammar.Begins Grammar.Unended front ∧
      Blames e rest ∧ ∀ next, peek rest = .ok next →
        ¬ front.map Lexeme.token ++ [next.token] <+: lexemes.map Lexeme.token := by
  -- Enough fuel to refuse the one and to read the other.
  obtain ⟨fuel, hfuel, hread⟩ : ∃ fuel, parseFuel (items source).length ≤ fuel ∧
      readScript fuel [] [] (itemsOf lexemes) = .ok script :=
    ⟨max (parseFuel (items source).length) (4 * lexemes.length + 1), Nat.le_max_left _ _,
      hwhole.read (Nat.le_max_right _ _)⟩
  have hblamed : Blamed (Grammar.Begins Grammar.Unended) (parse source)
      (readScript fuel [] [] (itemsOf lexemes)) (items source) (itemsOf lexemes) :=
    Grammar.readScript_blamed hfuel
  obtain ⟨front, rest, htakes, hbegins, hblames, hfails⟩ := hblamed e h (avoids_parse source e h)
  refine ⟨front, rest, htakes, hbegins, hblames, fun next hnext hprefix => ?_⟩
  obtain ⟨behind, htwin⟩ := exists_twin hnext hprefix
  obtain ⟨e', he'⟩ := hfails behind htwin
  exact absurd (he'.symm.trans hread) (by simp)

/-- The last item of a text is its end or a fault. -/
theorem Takes.exists_next {source : String} {front : List Lexeme} {rest : List Item}
    (h : Takes front (items source) rest) : ∃ item others, rest = item :: others := by
  cases rest with
  | cons item others => exact ⟨item, others, rfl⟩
  | nil =>
    obtain ⟨inner, last, hitems, -, hlast⟩ := items_eq_append source
    have hmem : last ∈ itemsOf front := by
      rw [← List.append_nil (itemsOf front), ← h.1, hitems]
      simp
    obtain ⟨lexeme, hlexeme, rfl⟩ := List.mem_map.mp hmem
    exact absurd (hlast.2 lexeme rfl) (h.2 lexeme hlexeme)

/-- Which tokens a text has decides whether it is a script, and their lines do not. -/
theorem exists_parse_of_whole {source : String} {lexemes lexemes' : List Lexeme}
    {script : Declarations}
    (hitems : items source = itemsOf lexemes')
    (hsame : lexemes'.map Lexeme.token = lexemes.map Lexeme.token)
    (hwhole : Grammar.Whole lexemes script) : ∃ script', parse source = .ok script' := by
  cases hparse : parse source with
  | ok script' => exact ⟨script', rfl⟩
  | error e =>
    obtain ⟨front, rest, htakes, -, -, hdiffers⟩ := exists_blamed hparse hwhole
    obtain ⟨item, others, rfl⟩ := htakes.exists_next
    obtain ⟨first, second, rfl, hfirst, hsecond⟩ :=
      List.map_eq_append_iff.mp (hitems.symm.trans htakes.1)
    obtain ⟨next, more, rfl, rfl, hmore⟩ := List.map_eq_cons_iff.mp hsecond
    obtain rfl : front = first := htakes.eq_of_append (by rw [htakes.1, ← hfirst]; rfl)
    refine absurd ?_ (hdiffers next rfl)
    rw [← hsame]
    exact ⟨more.map Lexeme.token, by simp⟩

/-- Any tokens that can be written are the tokens of a text. -/
theorem exists_source {tokens : List Token} (h : ∀ token ∈ tokens, token.Writable) :
    ∃ source lexemes, items source = itemsOf lexemes ∧
      lexemes.map Lexeme.token = tokens ++ [.eof] := by
  have hpieces : ∃ pieces : List SpelledToken, pieces.map SpelledToken.token = tokens := by
    induction tokens with
    | nil => exact ⟨[], rfl⟩
    | cons token tokens ih =>
      rw [List.forall_mem_cons] at h
      obtain ⟨pieces, hpieces⟩ := ih h.2
      exact ⟨⟨token, _, Token.spells_spelling h.1, ' ', rfl, []⟩ :: pieces, by simp [hpieces]⟩
  have hlexemes : ∀ (pieces : List SpelledToken) (before : List Char),
      (lexemesFrom before pieces).map Lexeme.token = pieces.map SpelledToken.token ++ [.eof] := by
    intro pieces
    induction pieces with
    | nil => exact fun _ => rfl
    | cons piece pieces ih => exact fun before => by simp [lexemesFrom, ih]
  obtain ⟨pieces, rfl⟩ := hpieces
  refine ⟨String.ofList (pieces.flatMap SpelledToken.chars), lexemesFrom [] pieces, ?_,
    hlexemes pieces []⟩
  rw [items, String.toList_ofList]
  exact itemsFrom_pieces pieces [] [] []

/-! ## Starts of scripts -/

/-- The token of an item, whatever its line. -/
def itemToken? : Item → Option Token
  | .ok lexeme => some lexeme.token
  | .error _ => none

@[simp] theorem map_itemToken?_itemsOf (lexemes : List Lexeme) :
    (itemsOf lexemes).map itemToken? = (lexemes.map Lexeme.token).map some := by
  simp [itemsOf, itemToken?]

/-- The first `count` items of the text are, but for their lines, the first items of a script. -/
def StartsScript (source : String) (count : Nat) : Prop :=
  ∃ other script, parse other = .ok script ∧
    ((items source).take count).map itemToken? <+: (items other).map itemToken?

theorem StartsScript.mono {source : String} {count less : Nat} (h : StartsScript source count)
    (hle : less ≤ count) : StartsScript source less := by
  obtain ⟨other, script, hparse, hprefix⟩ := h
  exact ⟨other, script, hparse, ((List.take_prefix_take_left hle).map _).trans hprefix⟩

theorem take_of_takes {front : List Lexeme} {items rest : List Item} (h : Takes front items rest) :
    items.take front.length = itemsOf front := by
  rw [h.1, ← length_itemsOf front, List.take_left]

/-- What starts a phrase starts a script. -/
theorem startsScript_of_begins {source : String} {front : List Lexeme} {rest : List Item}
    (h : Takes front (items source) rest) (hbegins : Grammar.Begins Grammar.Unended front) :
    StartsScript source front.length := by
  obtain ⟨more, script, hmore, line, hwhole⟩ := hbegins
  have hfront : ∀ lexeme ∈ front, lexeme.token.Writable := fun lexeme hlexeme =>
    writable_of_mem_items (h.1 ▸ List.mem_append_left rest (List.mem_map_of_mem hlexeme))
      (h.2 lexeme hlexeme)
  have hwritable : ∀ token ∈ (front ++ more).map Lexeme.token, token.Writable := by
    rw [List.forall_mem_map, List.forall_mem_append]
    exact ⟨hfront, hmore⟩
  obtain ⟨other, lexemes, hitems, htokens⟩ := exists_source hwritable
  obtain ⟨script', hparse⟩ := exists_parse_of_whole hitems (by simpa using htokens) hwhole
  refine ⟨other, script', hparse, ?_⟩
  rw [take_of_takes h, hitems, map_itemToken?_itemsOf, map_itemToken?_itemsOf, htokens]
  exact ⟨(more.map Lexeme.token ++ [Token.eof]).map some, by simp⟩

/-- A text that is refused goes along with a script no further than to the item that is blamed. -/
theorem exists_blamed_of_startsScript {source : String} {e : SyntaxError}
    (h : parse source = .error e) {count : Nat} (hstarts : StartsScript source count) :
    ∃ front rest, Takes front (items source) rest ∧ Grammar.Begins Grammar.Unended front ∧
      Blames e rest ∧ count ≤ front.length := by
  obtain ⟨other, script, hparse, hprefix⟩ := hstarts
  obtain ⟨lexemes, hitems, hwhole⟩ := exists_whole_of_parse hparse
  obtain ⟨front, rest, htakes, hbegins, hblames, hdiffers⟩ := exists_blamed h hwhole
  refine ⟨front, rest, htakes, hbegins, hblames, ?_⟩
  by_contra hlong
  obtain ⟨item, others, rfl⟩ := htakes.exists_next
  have htake : (items source).take (front.length + 1) = itemsOf front ++ [item] := by
    rw [htakes.1, ← length_itemsOf front, List.take_length_add_append]
    rfl
  have hshort :=
    ((List.take_prefix_take_left (Nat.lt_of_not_le hlong)).map itemToken?).trans hprefix
  rw [htake, hitems, map_itemToken?_itemsOf, List.map_append, map_itemToken?_itemsOf] at hshort
  cases item with
  | error fault =>
    have hmem := hshort.subset (List.mem_append_right _ List.mem_cons_self)
    exact absurd hmem (by simp [itemToken?])
  | ok next =>
    have htokens := hshort.filterMap id
    exact hdiffers next rfl (by simpa [itemToken?] using htokens)

/-- The start of a refused text that is the start of a script ends somewhere. -/
theorem exists_last_start {source : String} {e : SyntaxError} (h : parse source = .error e) :
    ∃ count, StartsScript source count ∧ ¬ StartsScript source (count + 1) := by
  have hbound : ∀ {count : Nat}, StartsScript source count → count ≤ (items source).length := by
    intro count hstarts
    obtain ⟨front, rest, htakes, -, -, hle⟩ := exists_blamed_of_startsScript h hstarts
    rw [htakes.1, List.length_append, length_itemsOf]
    omega
  by_contra hnone
  have hall : ∀ count, StartsScript source count := by
    intro count
    induction count with
    | zero => exact startsScript_of_begins .nil Grammar.begins_unended
    | succ count ih =>
      by_contra hends
      exact hnone ⟨count, ih, hends⟩
  exact absurd (hbound (hall ((items source).length + 1))) (by omega)

/-- An item that no script could have at its place: it is malformed, or no script starts with the
items up to it and with it. -/
def Offends (source : String) (place : Nat) : Prop :=
  (∃ e, (items source)[place]? = some (.error e)) ∨ ¬ StartsScript source (place + 1)

/-- A refused text is refused at the first offense. There is a first item that offends; where it is
a malformed token the error is that item, and otherwise the error names the line of the token, which
for a text that ends too early is the end. -/
theorem errors_name_the_first_offense (source : String) (e : SyntaxError)
    (h : parse source = .error e) :
    ∃ place item, (items source)[place]? = some item ∧ Offends source place ∧
      (∀ earlier < place, ¬ Offends source earlier) ∧
      match item with
      | .error found => e = found
      | .ok next => e.line = next.line ∧ Complaint e.fault next.token := by
  obtain ⟨count, hstarts, hends⟩ := exists_last_start h
  obtain ⟨front, rest, htakes, hbegins, hblames, hle⟩ := exists_blamed_of_startsScript h hstarts
  obtain rfl : front.length = count := by
    have hfront := startsScript_of_begins htakes hbegins
    by_contra hne
    exact hends (hfront.mono (by omega))
  obtain ⟨item, others, rfl⟩ := htakes.exists_next
  refine ⟨front.length, item, ?_, .inr hends, ?_, ?_⟩
  · rw [htakes.1, ← length_itemsOf front]
    simp
  · rintro earlier hearlier (⟨found, hfound⟩ | hno)
    · rw [htakes.1, List.getElem?_append_left (by simpa using hearlier)] at hfound
      obtain ⟨lexeme, -, hlexeme⟩ := List.mem_map.mp (List.mem_of_getElem? hfound)
      exact absurd hlexeme (by simp)
    · exact hno (hstarts.mono hearlier)
  · rcases hblames with hpeek | ⟨next, hpeek, hline, hfault⟩
    · obtain rfl : item = .error e := hpeek
      rfl
    · obtain rfl : item = .ok next := hpeek
      exact ⟨hline, hfault⟩

/-- The brace behind an assignment without its semicolon is the first offense. -/
theorem missing_semicolon_offends :
    parse "function f() \x7b\n x = 1\n\x7d" =
        .error ⟨3, .unexpected (.sign .semicolon) (.punct .rbrace)⟩ ∧
      ∃ place, (items "function f() \x7b\n x = 1\n\x7d")[place]? = some (.ok ⟨.punct .rbrace, 3⟩) ∧
        Offends "function f() \x7b\n x = 1\n\x7d" place ∧
        ∀ earlier < place, ¬ Offends "function f() \x7b\n x = 1\n\x7d" earlier := by
  have hitems : items "function f() \x7b\n x = 1\n\x7d" = itemsOf
      [⟨.keyword .functionWord, 1⟩, ⟨.ident "f", 1⟩, ⟨.punct .lparen, 1⟩, ⟨.punct .rparen, 1⟩,
        ⟨.punct .lbrace, 1⟩, ⟨.ident "x", 2⟩, ⟨.punct .assign, 2⟩, ⟨.number 1, 2⟩,
        ⟨.punct .rbrace, 3⟩, ⟨.eof, 3⟩] := by decide +kernel
  have hparse : parse "function f() \x7b\n x = 1\n\x7d" =
      .error ⟨3, .unexpected (.sign .semicolon) (.punct .rbrace)⟩ := by
    rw [parse, hitems]
    rfl
  obtain ⟨place, item, hitem, hoffends, hfirst, hblames⟩ := errors_name_the_first_offense _ _ hparse
  refine ⟨hparse, place, ?_, hoffends, hfirst⟩
  cases item with
  | error found =>
    have hmem := List.mem_of_getElem? hitem
    exact absurd hmem (by simp [hitems])
  | ok next =>
    obtain ⟨token, line⟩ := next
    obtain ⟨rfl, hcomplaint⟩ := hblames
    cases hcomplaint
    exact hitem

end RoomForge.Script
