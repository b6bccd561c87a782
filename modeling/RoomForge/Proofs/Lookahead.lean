import RoomForge.Proofs.Parsing

set_option autoImplicit false

/-! # One token of lookahead

A reader sees the tokens that it takes and the next one, and nothing behind that. Two runs over
items that hold the same tokens that far, on whatever lines, take the same tokens and stop alike. A
run that fails blames the item it looks at, and what it took up to there can still be completed to
what it reads. `Sighted` is this property of a reader, and its laws follow how readers are composed.
-/

namespace RoomForge.Script

/-- A fault of the grammar, found at the token. -/
inductive Complaint : SyntaxFault → Token → Prop where
  | unexpected (wanted : Wanted) (token : Token) : Complaint (.unexpected wanted token) token
  | unclosedBlock : Complaint .unclosedBlock .eof
  | nestedFunction {token : Token} (h : Grammar.StartsFunction token) :
      Complaint .nestedFunction token
  | assignmentTarget : Complaint .assignmentTarget (.punct .assign)

/-- The error is the next item, or a complaint about the next token. -/
def Blames (e : SyntaxError) (rest : List Item) : Prop :=
  peek rest = .error e ∨
    ∃ next, peek rest = .ok next ∧ e.line = next.line ∧ Complaint e.fault next.token

/-- The items start with the tokens `front`, none of them the end, and go on with `rest`. -/
def Takes (front : List Lexeme) (items rest : List Item) : Prop :=
  items = itemsOf front ++ rest ∧ ∀ lexeme ∈ front, lexeme.token ≠ .eof

/-- Up to its part `behind`, and including the first token of that, `others` holds the same tokens
as `front` in front of `rest`. -/
def Twin (front : List Lexeme) (rest others behind : List Item) : Prop :=
  ∃ copy next twin more, copy.map Lexeme.token = front.map Lexeme.token ∧ peek rest = .ok next ∧
    twin.token = next.token ∧ behind = .ok twin :: more ∧ others = itemsOf copy ++ behind

section

variable {front middle : List Lexeme} {items rest others behind : List Item}

theorem Takes.nil : Takes [] items items :=
  ⟨rfl, by simp⟩

theorem Takes.append {between : List Item} (h : Takes front items between)
    (h' : Takes middle between rest) : Takes (front ++ middle) items rest :=
  ⟨by rw [h.1, h'.1, itemsOf_append, List.append_assoc], List.forall_mem_append.mpr ⟨h.2, h'.2⟩⟩

theorem Takes.cons {next : Lexeme} (h : Takes front items.tail rest)
    (hpeek : peek items = .ok next) (hne : next.token ≠ .eof) : Takes (next :: front) items rest :=
  ⟨by rw [Grammar.eq_cons_of_peek hpeek hne, h.1]; rfl, List.forall_mem_cons.mpr ⟨hne, h.2⟩⟩

/-- What is taken is known by what is left. -/
theorem Takes.eq_of_append (h : Takes front items rest) (hitems : items = itemsOf middle ++ rest) :
    front = middle := by
  have hsame : itemsOf front = itemsOf middle := List.append_cancel_right (h.1.symm.trans hitems)
  have hinjective : Function.Injective (Except.ok : Lexeme → Item) := fun _ _ => Except.ok.inj
  exact List.map_injective_iff.mpr hinjective hsame

theorem Takes.phrase {α : Type} {Phrase : List Lexeme → α → Prop} {tree : α}
    (h : Takes front items rest) (hopens : Opens Phrase items tree rest) : Phrase front tree := by
  obtain ⟨lexemes, hitems, hphrase⟩ := hopens
  rwa [h.eq_of_append hitems]

/-- A twin is cut where the tokens are. -/
theorem Twin.split (h : Twin (front ++ middle) rest others behind) :
    ∃ between, Twin front (itemsOf middle ++ rest) others between ∧
      Twin middle rest between behind := by
  obtain ⟨copy, next, twin, more, hcopy, hnext, htwin, rfl, rfl⟩ := h
  rw [List.map_append] at hcopy
  obtain ⟨first, second, rfl, hfirst, hsecond⟩ := List.map_eq_append_iff.mp hcopy
  refine ⟨itemsOf second ++ .ok twin :: more, ?_, second, next, twin, more, hsecond, hnext, htwin,
    rfl, rfl⟩
  cases middle with
  | nil =>
    obtain rfl := List.map_eq_nil_iff.mp hsecond
    exact ⟨first, next, twin, more, hfirst, hnext, htwin, rfl, by simp⟩
  | cons lexeme middle =>
    obtain ⟨other, second, rfl, hother, -⟩ := List.map_eq_cons_iff.mp hsecond
    exact ⟨first, lexeme, other, _, hfirst, rfl, hother, rfl, by simp⟩

/-- A twin starts with the same token. -/
theorem Twin.exists_next (h : Twin front rest others behind) :
    ∃ next twin, peek (itemsOf front ++ rest) = .ok next ∧ peek others = .ok twin ∧
      twin.token = next.token := by
  have hwhole : Twin ([] ++ front) rest others behind := h
  obtain ⟨_, ⟨copy, next, twin, more, hcopy, hnext, htwin, rfl, rfl⟩, -⟩ := hwhole.split
  obtain rfl := List.map_eq_nil_iff.mp hcopy
  exact ⟨next, twin, hnext, rfl, htwin⟩

theorem Twin.exists_twin {next : Lexeme} (h : Twin front rest others behind)
    (htakes : Takes front items rest) (hpeek : peek items = .ok next) :
    ∃ line, peek others = .ok ⟨next.token, line⟩ := by
  obtain ⟨first, twin, hfirst, hothers, htoken⟩ := h.exists_next
  rw [← htakes.1, hpeek] at hfirst
  obtain rfl := Except.ok.inj hfirst
  exact ⟨twin.line, htoken ▸ hothers⟩

theorem Twin.tail {lexeme : Lexeme} (h : Twin (lexeme :: front) rest others behind) :
    ∃ twin others', twin.token = lexeme.token ∧ others = .ok twin :: others' ∧
      Twin front rest others' behind := by
  obtain ⟨copy, next, twin, more, hcopy, hnext, htwin, rfl, rfl⟩ := h
  obtain ⟨first, copy, rfl, hfirst, hcopy⟩ := List.map_eq_cons_iff.mp hcopy
  exact ⟨first, _, hfirst, rfl, copy, next, twin, more, hcopy, hnext, htwin, rfl, rfl⟩

theorem Twin.eq_of_nil (h : Twin [] rest others behind) : others = behind := by
  obtain ⟨copy, next, twin, more, hcopy, -, -, rfl, rfl⟩ := h
  rw [List.map_eq_nil_iff.mp hcopy]
  rfl

end

/-- A twin is cut in one way only. -/
theorem Twin.eq_drop {front : List Lexeme} {rest others behind : List Item}
    (h : Twin front rest others behind) : behind = others.drop front.length := by
  obtain ⟨copy, next, twin, more, hcopy, -, -, rfl, rfl⟩ := h
  have hlength : front.length = (itemsOf copy).length := by
    simpa using (congrArg List.length hcopy).symm
  rw [hlength, List.drop_left]

/-! ## Runs -/

/-- Where a run over `items` succeeds, and `others` holds the same tokens as far as that, the run
`other` over `others` takes as much, and of its tree `view` sees the same. -/
def Kept {α ν : Type} (view : α → ν) (run other : Except SyntaxError (Parsed α))
    (items others : List Item) : Prop :=
  ∀ tree rest, run = .ok (tree, rest) → ∃ front, Takes front items rest ∧
    ∀ behind, Twin front rest others behind →
      ∃ tree', view tree' = view tree ∧ other = .ok (tree', behind)

/-- Where a run over `items` fails, and not for its fuel, it blames an item, and what it took before
has the property `Viable`; if `others` holds the same tokens as far as that, the run `other` over
`others` fails too. -/
def Blamed {α β : Type} (Viable : List Lexeme → Prop) (run : Except SyntaxError α)
    (other : Except SyntaxError β) (items others : List Item) : Prop :=
  ∀ e, run = .error e → ¬ TooDeep e → ∃ front rest, Takes front items rest ∧ Viable front ∧
    Blames e rest ∧ ∀ behind, Twin front rest others behind → ∃ e', other = .error e'

/-- A run that goes by the tokens it takes and the next one. -/
structure Sighted {α ν : Type} (Viable : List Lexeme → Prop) (view : α → ν)
    (run other : Except SyntaxError (Parsed α)) (items others : List Item) : Prop where
  kept : Kept view run other items others
  blamed : Blamed Viable run other items others

/-- Nothing of a tree is compared. -/
def unseen {α : Type} (_ : α) : Unit := ()

section

variable {α β γ ν μ : Type} {Viable : List Lexeme → Prop} {items others : List Item}

/-! ### Failures -/

theorem blamed_ok {value : α} {other : Except SyntaxError β} :
    Blamed Viable (.ok value) other items others := by
  intro e he
  exact absurd he (by simp)

/-- With nothing taken, a fault of the grammar is found at the next token. -/
theorem blamed_error {next : Lexeme} {e e' : SyntaxError} (hpeek : peek items = .ok next)
    (hviable : Viable []) (hline : e.line = next.line) (hfault : Complaint e.fault next.token) :
    Blamed (α := α) (β := β) Viable (.error e) (.error e') items others := by
  rintro _ ⟨⟩ -
  exact ⟨[], items, .nil, hviable, .inr ⟨next, hpeek, hline, hfault⟩, fun _ _ => ⟨e', rfl⟩⟩

/-- Without fuel, only the next item can be the fault. -/
theorem blamed_outOfFuel {other : Except SyntaxError β} (hviable : Viable []) :
    Blamed Viable (outOfFuel (α := α) items) other items others := by
  intro e he hdeep
  rcases bind_eq_error_iff.mp he with hpeek | ⟨next, -, hdeep'⟩
  · refine ⟨[], items, .nil, hviable, .inl hpeek, fun behind htwin => ?_⟩
    obtain ⟨next, _, hnext, -⟩ := htwin.exists_next
    exact absurd (hpeek.symm.trans hnext) (by simp)
  · obtain rfl := Except.error.inj hdeep'
    exact absurd rfl hdeep

theorem Blamed.mono {Weaker : List Lexeme → Prop} {run : Except SyntaxError α}
    {other : Except SyntaxError β} (h : Blamed Viable run other items others)
    (himp : ∀ front, Viable front → Weaker front) : Blamed Weaker run other items others := by
  intro e he hdeep
  obtain ⟨front, rest, htakes, hviable, hblames, hother⟩ := h e he hdeep
  exact ⟨front, rest, htakes, himp front hviable, hblames, hother⟩

/-- A look at the next token. -/
theorem Blamed.look {run : Lexeme → Except SyntaxError α} {other : Lexeme → Except SyntaxError β}
    (hviable : Viable []) (h : ∀ token line line', peek items = .ok ⟨token, line⟩ →
      Blamed Viable (run ⟨token, line⟩) (other ⟨token, line'⟩) items others) :
    Blamed Viable (peek items >>= run) (peek others >>= other) items others := by
  intro e he hdeep
  rcases bind_eq_error_iff.mp he with hpeek | ⟨next, hpeek, hrun⟩
  · refine ⟨[], items, .nil, hviable, .inl hpeek, fun behind htwin => ?_⟩
    obtain ⟨next, _, hnext, -⟩ := htwin.exists_next
    exact absurd (hpeek.symm.trans hnext) (by simp)
  · by_cases hsame : ∃ line, peek others = .ok ⟨next.token, line⟩
    · obtain ⟨line, hothers⟩ := hsame
      rw [bind_of_eq_ok hothers]
      exact h _ _ line hpeek e hrun hdeep
    · obtain ⟨front, rest, htakes, hfront, hblames, -⟩ := h _ _ next.line hpeek e hrun hdeep
      exact ⟨front, rest, htakes, hfront, hblames,
        fun behind htwin => absurd (htwin.exists_twin htakes hpeek) hsame⟩

/-- A token is taken. -/
theorem Blamed.consume {next : Lexeme} {run : Except SyntaxError α} {other : Except SyntaxError β}
    (hpeek : peek items = .ok next) (hne : next.token ≠ .eof)
    (h : Blamed (fun front => Viable (next :: front)) run other items.tail others.tail) :
    Blamed Viable run other items others := by
  intro e he hdeep
  obtain ⟨front, rest, htakes, hviable, hblames, hother⟩ := h e he hdeep
  refine ⟨next :: front, rest, htakes.cons hpeek hne, hviable, hblames, fun behind htwin => ?_⟩
  obtain ⟨twin, others', -, rfl, htwin'⟩ := htwin.tail
  exact hother behind htwin'

/-- One run behind another. -/
theorem Blamed.bind {view : α → ν} {run other : Except SyntaxError (Parsed α)}
    {next : Parsed α → Except SyntaxError β} {next' : Parsed α → Except SyntaxError γ}
    (h : Sighted Viable view run other items others)
    (hnext : ∀ tree tree' front rest behind, run = .ok (tree, rest) → Takes front items rest →
      view tree' = view tree → Blamed (fun more => Viable (front ++ more)) (next (tree, rest))
        (next' (tree', behind)) rest behind) :
    Blamed Viable (run >>= next) (other >>= next') items others := by
  intro e he hdeep
  rcases bind_eq_error_iff.mp he with hrun | ⟨⟨tree, middle⟩, hrun, hrest⟩
  · obtain ⟨front, rest, htakes, hviable, hblames, hother⟩ := h.blamed e hrun hdeep
    refine ⟨front, rest, htakes, hviable, hblames, fun behind htwin => ?_⟩
    obtain ⟨e', he'⟩ := hother behind htwin
    exact ⟨e', bind_eq_error_iff.mpr (.inl he')⟩
  · obtain ⟨front, htakes, hkept⟩ := h.kept tree middle hrun
    by_cases htwins : ∃ between, Twin front middle others between
    · obtain ⟨between, hfirst⟩ := htwins
      obtain ⟨tree', hview, hother⟩ := hkept between hfirst
      obtain ⟨second, rest, htakes', hviable, hblames, hfails⟩ :=
        hnext tree tree' front middle between hrun htakes hview e hrest hdeep
      refine ⟨front ++ second, rest, htakes.append htakes', hviable, hblames,
        fun behind htwin => ?_⟩
      obtain ⟨between', hfirst', hsecond⟩ := htwin.split
      rw [hfirst'.eq_drop, ← hfirst.eq_drop] at hsecond
      rw [bind_of_eq_ok hother]
      exact hfails behind hsecond
    · -- The lists differ where the first run looks, so that nothing is asked of the other run.
      obtain ⟨second, rest, htakes', hviable, hblames, -⟩ :=
        hnext tree tree front middle middle hrun htakes rfl e hrest hdeep
      refine ⟨front ++ second, rest, htakes.append htakes', hviable, hblames,
        fun behind htwin => absurd ?_ htwins⟩
      obtain ⟨between, hfirst, -⟩ := htwin.split
      exact ⟨between, htakes'.1 ▸ hfirst⟩

/-! ### Runs as a whole -/

theorem sighted_ok {view : α → ν} {tree tree' : α} (h : view tree' = view tree) :
    Sighted Viable view (.ok (tree, items)) (.ok (tree', others)) items others where
  kept := by
    rintro _ _ ⟨⟩
    refine ⟨[], .nil, fun behind htwin => ⟨tree', h, ?_⟩⟩
    rw [htwin.eq_of_nil]
  blamed := blamed_ok

theorem sighted_error {view : α → ν} {next : Lexeme} {e e' : SyntaxError}
    (hpeek : peek items = .ok next) (hviable : Viable []) (hline : e.line = next.line)
    (hfault : Complaint e.fault next.token) :
    Sighted Viable view (.error e) (.error e') items others where
  kept := by
    intro tree rest h
    exact absurd h (by simp)
  blamed := blamed_error hpeek hviable hline hfault

theorem sighted_unexpected {view : α → ν} {wanted : Wanted} {next twin : Lexeme}
    (hpeek : peek items = .ok next) (hviable : Viable []) :
    Sighted Viable view (unexpected wanted next) (unexpected wanted twin) items others :=
  sighted_error hpeek hviable rfl (.unexpected wanted next.token)

theorem sighted_outOfFuel {view : α → ν} {other : Except SyntaxError (Parsed α)}
    (hviable : Viable []) : Sighted Viable view (outOfFuel items) other items others where
  kept := by
    intro tree rest h
    exact absurd h Grammar.outOfFuel_ne_ok
  blamed := blamed_outOfFuel hviable

theorem Sighted.mono {view : α → ν} {Weaker : List Lexeme → Prop}
    {run other : Except SyntaxError (Parsed α)} (h : Sighted Viable view run other items others)
    (himp : ∀ front, Viable front → Weaker front) : Sighted Weaker view run other items others :=
  ⟨h.kept, h.blamed.mono himp⟩

theorem Sighted.look {view : α → ν} {run other : Lexeme → Except SyntaxError (Parsed α)}
    (hviable : Viable []) (h : ∀ token line line', peek items = .ok ⟨token, line⟩ →
      Sighted Viable view (run ⟨token, line⟩) (other ⟨token, line'⟩) items others) :
    Sighted Viable view (peek items >>= run) (peek others >>= other) items others where
  kept := by
    intro tree rest hrun
    obtain ⟨next, hpeek, hrun⟩ := bind_eq_ok_iff.mp hrun
    obtain ⟨front, htakes, -⟩ := (h _ _ next.line hpeek).kept tree rest hrun
    refine ⟨front, htakes, fun behind htwin => ?_⟩
    obtain ⟨line, hothers⟩ := htwin.exists_twin htakes hpeek
    obtain ⟨front', htakes', hkept⟩ := (h _ _ line hpeek).kept tree rest hrun
    obtain rfl := htakes'.eq_of_append htakes.1
    rw [bind_of_eq_ok hothers]
    exact hkept behind htwin
  blamed := .look hviable fun token line line' hpeek => (h token line line' hpeek).blamed

theorem Sighted.consume {view : α → ν} {next : Lexeme}
    {run other : Except SyntaxError (Parsed α)} (hpeek : peek items = .ok next)
    (hne : next.token ≠ .eof)
    (h : Sighted (fun front => Viable (next :: front)) view run other items.tail others.tail) :
    Sighted Viable view run other items others where
  kept := by
    intro tree rest hrun
    obtain ⟨front, htakes, hkept⟩ := h.kept tree rest hrun
    refine ⟨next :: front, htakes.cons hpeek hne, fun behind htwin => ?_⟩
    obtain ⟨twin, others', -, rfl, htwin'⟩ := htwin.tail
    exact hkept behind htwin'
  blamed := h.blamed.consume hpeek hne

theorem Sighted.bind {view : α → ν} {view' : β → μ} {run other : Except SyntaxError (Parsed α)}
    {next next' : Parsed α → Except SyntaxError (Parsed β)}
    (h : Sighted Viable view run other items others)
    (hnext : ∀ tree tree' front rest behind, run = .ok (tree, rest) → Takes front items rest →
      view tree' = view tree → Sighted (fun more => Viable (front ++ more)) view'
        (next (tree, rest)) (next' (tree', behind)) rest behind) :
    Sighted Viable view' (run >>= next) (other >>= next') items others where
  kept := by
    intro result rest hresult
    obtain ⟨⟨tree, middle⟩, hrun, hrest⟩ := bind_eq_ok_iff.mp hresult
    obtain ⟨front, htakes, hkept⟩ := h.kept tree middle hrun
    obtain ⟨second, htakes', -⟩ :=
      (hnext tree tree front middle middle hrun htakes rfl).kept result rest hrest
    refine ⟨front ++ second, htakes.append htakes', fun behind htwin => ?_⟩
    obtain ⟨between, hfirst, hsecond⟩ := htwin.split
    rw [← htakes'.1] at hfirst
    obtain ⟨tree', hview, hother⟩ := hkept between hfirst
    obtain ⟨second', htakes'', hkept'⟩ :=
      (hnext tree tree' front middle between hrun htakes hview).kept result rest hrest
    obtain rfl := htakes''.eq_of_append htakes'.1
    rw [bind_of_eq_ok hother]
    exact hkept' behind hsecond
  blamed := .bind h fun tree tree' front rest behind hrun htakes hview =>
    (hnext tree tree' front rest behind hrun htakes hview).blamed

/-- A run and what is made of its tree, of which nothing is compared. -/
theorem Sighted.returns {view : α → ν} {run other : Except SyntaxError (Parsed α)}
    {next next' : Parsed α → Except SyntaxError (Parsed β)}
    (h : Sighted Viable view run other items others)
    (hnext : ∀ tree rest, ∃ result, next (tree, rest) = .ok (result, rest))
    (hnext' : ∀ tree rest, ∃ result, next' (tree, rest) = .ok (result, rest)) :
    Sighted Viable unseen (run >>= next) (other >>= next') items others := by
  refine h.bind fun tree tree' front rest behind _ _ _ => ?_
  obtain ⟨result, hresult⟩ := hnext tree rest
  obtain ⟨result', hresult'⟩ := hnext' tree' behind
  rw [hresult, hresult']
  exact sighted_ok rfl

/-! ### Single tokens -/

theorem sighted_expect {token : Token} (wanted : Wanted) (hne : token ≠ .eof)
    (hviable : Viable []) :
    Sighted Viable id (expect token wanted items) (expect token wanted others) items others := by
  refine .look hviable fun found line line' hpeek => ?_
  by_cases hfound : found = token
  · simp only [if_pos hfound]
    exact .consume hpeek (hfound ▸ hne) (sighted_ok rfl)
  · simp only [if_neg hfound]
    exact sighted_unexpected hpeek hviable

/-- A token that has to stand next. -/
theorem Sighted.expect {view : α → ν} {token : Token} {wanted : Wanted}
    {next next' : Parsed Unit → Except SyntaxError (Parsed α)} (hne : token ≠ .eof)
    (hviable : Viable []) (h : ∀ line rest behind, items = .ok ⟨token, line⟩ :: rest →
      Sighted (fun more => Viable (⟨token, line⟩ :: more)) view (next ((), rest))
        (next' ((), behind)) rest behind) :
    Sighted Viable view (expect token wanted items >>= next) (expect token wanted others >>= next')
      items others := by
  refine (sighted_expect wanted hne hviable).bind fun _ _ front rest behind hrun htakes _ => ?_
  obtain ⟨line, hitems⟩ := Grammar.expect_ok hne hrun
  obtain rfl : front = [⟨token, line⟩] := htakes.eq_of_append hitems
  exact h line rest behind hitems

/-- A sign that has to stand next. -/
theorem Sighted.expectSign {view : α → ν} {punct : Punct}
    {next next' : Parsed Unit → Except SyntaxError (Parsed α)} (hviable : Viable [])
    (h : ∀ line rest behind, items = .ok (Grammar.sign punct line) :: rest →
      Sighted (fun more => Viable (Grammar.sign punct line :: more)) view (next ((), rest))
        (next' ((), behind)) rest behind) :
    Sighted Viable view (expectSign punct items >>= next) (expectSign punct others >>= next')
      items others :=
  .expect (by simp) hviable h

/-- A name that has to stand next. -/
theorem Sighted.name {view : α → ν} {wanted : Wanted}
    {next next' : Parsed String → Except SyntaxError (Parsed α)} (hviable : Viable [])
    (h : ∀ name line rest behind, items = .ok ⟨.ident name, line⟩ :: rest →
      Sighted (fun more => Viable (⟨.ident name, line⟩ :: more)) view (next (name, rest))
        (next' (name, behind)) rest behind) :
    Sighted Viable view (readName wanted items >>= next) (readName wanted others >>= next')
      items others := by
  have hname : Sighted Viable id (readName wanted items) (readName wanted others) items others := by
    refine .look hviable fun token line line' hpeek => ?_
    cases token with
    | ident name => exact .consume hpeek (by simp) (sighted_ok rfl)
    | _ => exact sighted_unexpected hpeek hviable
  refine hname.bind fun name name' front rest behind hrun htakes hview => ?_
  obtain ⟨line, hitems⟩ := Grammar.readName_ok hrun
  obtain rfl : front = [⟨.ident name, line⟩] := htakes.eq_of_append hitems
  obtain rfl : name' = name := hview
  exact h name' line rest behind hitems

end

end RoomForge.Script
