import RoomForge.Proofs.LongestToken

set_option autoImplicit false

/-! # Texts are cut into items

Reading goes through a text step by step (specification, section 4.1). Each step takes off the
blanks and comments in front and then the characters of one item, so that the slices of all steps
make up the text. Behind the last item, which is the end of the text or a comment that it does not
close, there is nothing more to read. `texts_are_cut_into_items` is the result; `items_eq_slices`
ties it to the reader of the program, which keeps no slices.
-/

namespace RoomForge.Script

/-! ## Step by step -/

/-- What one step takes off the text: blanks and comments, and an item with its characters. -/
structure Slice where
  gap : List Char
  text : List Char
  item : Item
  deriving DecidableEq

/-- All characters that a step takes off. -/
def Slice.chars (slice : Slice) : List Char :=
  slice.gap ++ slice.text

/-- Where reading stands: the text that is left, its line, and whether the last item was given. -/
structure Cursor where
  left : List Char
  line : Nat
  finished : Bool

/-- The characters of `cs` in front of what is left of it. -/
def takenOff (cs left : List Char) : List Char :=
  cs.take (cs.length - left.length)

@[simp] theorem takenOff_append (front left : List Char) :
    takenOff (front ++ left) left = front := by
  simp [takenOff]

namespace Cursor

/-- The start of a text. -/
def start (source : String) : Cursor :=
  ⟨source.toList, 1, false⟩

/-- Reads the next item, if there is one. An unterminated comment is the last item of a text, as its
end is. -/
def next (cursor : Cursor) : Option (Slice × Cursor) :=
  if cursor.finished then none
  else
    match skipTrivia .blank cursor.left cursor.line with
    | .error e => some (⟨cursor.left, [], .error e⟩, ⟨[], cursor.line, true⟩)
    | .ok ([], line) => some (⟨cursor.left, [], .ok ⟨.eof, line⟩⟩, ⟨[], line, true⟩)
    | .ok (c :: rest, line) =>
      let read := readItem c rest line
      some (⟨takenOff cursor.left (c :: rest), takenOff (c :: rest) read.rest, read.item⟩,
        ⟨read.rest, read.line, false⟩)

/-- The answer to call number `count` for the next item. Behind the last item the reader stays where
it is. -/
def call (cursor : Cursor) : Nat → Option Slice
  | 0 => cursor.next.map Prod.fst
  | count + 1 =>
    match cursor.next with
    | none => cursor.call count
    | some (_, behind) => behind.call count

/-- Steps that are left at most. -/
def steps (cursor : Cursor) : Nat :=
  if cursor.finished then 0 else cursor.left.length + 1

end Cursor

/-- A step of reading takes `slice` off the text of `cursor`. -/
structure Slice.Cuts (slice : Slice) (cursor behind : Cursor) : Prop where
  cut : cursor.left = slice.chars ++ behind.left
  between : Between slice.gap (slice.text ++ behind.left)
  line_eq : behind.finished = false → behind.line = cursor.line + slice.chars.count '\n'
  finished_iff : behind.finished = true ↔ EndsText slice.item
  left_eq_nil : behind.finished = true → behind.left = []
  text_ne_nil : behind.finished = false → slice.text ≠ []
  token : ∀ lexeme, slice.item = .ok lexeme → lexeme.line = cursor.line + slice.gap.count '\n' ∧
    (lexeme.token ≠ .eof → LongestToken lexeme.token slice.text (slice.text ++ behind.left))

namespace Cursor

/-- Before the last item was given, a step takes off an item. -/
theorem exists_next {cursor : Cursor} (h : cursor.finished = false) :
    ∃ slice behind, cursor.next = some (slice, behind) ∧ slice.Cuts cursor behind := by
  obtain ⟨left, line, finished⟩ := cursor
  obtain rfl : finished = false := h
  simp only [next, Bool.false_eq_true, if_false]
  obtain ⟨gap, rest, rfl, hbetween, hskip | ⟨rfl, start, hskip⟩⟩ := skipTrivia_cases left line
  · rw [hskip]
    cases rest with
    | nil =>
      refine ⟨_, _, rfl, ?_⟩
      rw [List.append_nil]
      exact {
        cut := by simp [Slice.chars]
        between := hbetween
        line_eq := by simp
        finished_iff := by simp [EndsText]
        left_eq_nil := fun _ => rfl
        text_ne_nil := by simp
        token := by
          rintro lexeme ⟨⟩
          exact ⟨rfl, fun hne => absurd rfl hne⟩ }
    | cons c rest =>
      obtain ⟨text, htakes⟩ :=
        readItem_takesOff hbetween.isBlank_eq_false rest (line + gap.count '\n')
      obtain ⟨hcut, hne, hline, hinner, htoken⟩ := htakes
      refine ⟨_, _, rfl, ?_⟩
      rw [takenOff_append]
      generalize readItem c rest (line + gap.count '\n') = read at *
      rw [hcut, takenOff_append]
      exact {
        cut := by simp [Slice.chars]
        between := hcut ▸ hbetween
        line_eq := by simp [hline, Slice.chars, Nat.add_assoc]
        finished_iff := by simp [hinner]
        left_eq_nil := by simp
        text_ne_nil := fun _ => hne
        token := by
          intro lexeme hlexeme
          obtain ⟨hplace, hlongest⟩ := htoken lexeme hlexeme
          exact ⟨hplace, fun _ => hcut ▸ hlongest⟩ }
  · rw [hskip]
    refine ⟨_, _, rfl, ?_⟩
    rw [List.append_nil]
    exact {
      cut := by simp [Slice.chars]
      between := hbetween
      line_eq := by simp
      finished_iff := by simp [EndsText]
      left_eq_nil := fun _ => rfl
      text_ne_nil := by simp
      token := by simp }

theorem next_of_finished {cursor : Cursor} (h : cursor.finished = true) : cursor.next = none :=
  if_pos h

theorem cuts_of_next {cursor behind : Cursor} {slice : Slice}
    (h : cursor.next = some (slice, behind)) :
    cursor.finished = false ∧ slice.Cuts cursor behind := by
  cases hfinished : cursor.finished with
  | true => exact absurd h (by simp [next_of_finished hfinished])
  | false =>
    obtain ⟨found, rest, hnext, hcuts⟩ := exists_next hfinished
    obtain ⟨rfl, rfl⟩ := Prod.mk.inj (Option.some.inj (hnext.symm.trans h))
    exact ⟨rfl, hcuts⟩

/-- Every step but the last leaves a shorter text. -/
theorem steps_lt_of_next {cursor behind : Cursor} {slice : Slice}
    (h : cursor.next = some (slice, behind)) : behind.steps < cursor.steps := by
  obtain ⟨hfinished, hcuts⟩ := cuts_of_next h
  unfold steps
  rw [hfinished, hcuts.cut]
  cases hbehind : behind.finished with
  | true => simp
  | false =>
    have hpos := List.length_pos_iff.mpr (hcuts.text_ne_nil hbehind)
    simp only [Bool.false_eq_true, if_false, Slice.chars, List.length_append]
    omega

/-- What all steps take off. -/
def slices (cursor : Cursor) : List Slice :=
  match _hnext : cursor.next with
  | none => []
  | some (slice, behind) => slice :: behind.slices
termination_by cursor.steps
decreasing_by exact steps_lt_of_next _hnext

theorem slices_of_next {cursor behind : Cursor} {slice : Slice}
    (h : cursor.next = some (slice, behind)) : cursor.slices = slice :: behind.slices := by
  rw [slices]
  split
  · next hnone => exact absurd (hnone.symm.trans h) (by simp)
  · next found rest hnext =>
    obtain ⟨rfl, rfl⟩ := Prod.mk.inj (Option.some.inj (hnext.symm.trans h))
    rfl

theorem slices_of_finished {cursor : Cursor} (h : cursor.finished = true) : cursor.slices = [] := by
  rw [slices]
  split
  · rfl
  · next hnext => exact absurd ((next_of_finished h).symm.trans hnext) (by simp)

/-- Induction along the steps of a reader, up to the last. -/
@[elab_as_elim]
theorem steps_induction {motive : Cursor → Prop} (finished : ∀ cursor, cursor.finished = true →
      motive cursor)
    (step : ∀ cursor slice behind, cursor.finished = false → cursor.next = some (slice, behind) →
      slice.Cuts cursor behind → motive behind → motive cursor) (cursor : Cursor) :
    motive cursor := by
  induction hsteps : cursor.steps using Nat.strong_induction_on generalizing cursor with
  | _ count ih =>
    subst hsteps
    cases hfinished : cursor.finished with
    | true => exact finished cursor hfinished
    | false =>
      obtain ⟨slice, behind, hnext, hcuts⟩ := exists_next hfinished
      exact step cursor slice behind hfinished hnext hcuts
        (ih behind.steps (steps_lt_of_next hnext) behind rfl)

/-- Calls answer with the slices one by one, and with nothing ever after. -/
theorem call_eq (cursor : Cursor) (count : Nat) : cursor.call count = cursor.slices[count]? := by
  induction cursor using steps_induction generalizing count with
  | finished cursor h =>
    rw [slices_of_finished h, List.getElem?_nil]
    induction count with
    | zero => simp [call, next_of_finished h]
    | succ count ih => simp [call, next_of_finished h, ih]
  | step cursor slice behind _ hnext _ ih =>
    rw [slices_of_next hnext]
    cases count with
    | zero => simp [call, hnext]
    | succ count => simp [call, hnext, ih]

theorem length_slices_le (cursor : Cursor) : cursor.slices.length ≤ cursor.steps := by
  induction cursor using steps_induction with
  | finished cursor h => simp [slices_of_finished h]
  | step cursor slice behind _ hnext _ ih =>
    have hlt := steps_lt_of_next hnext
    rw [slices_of_next hnext, List.length_cons]
    omega

/-- The slices make up the text. -/
theorem flatMap_chars_slices (cursor : Cursor) (h : cursor.finished = true → cursor.left = []) :
    cursor.slices.flatMap Slice.chars = cursor.left := by
  induction cursor using steps_induction with
  | finished cursor hfinished => simp [slices_of_finished hfinished, h hfinished]
  | step cursor slice behind _ hnext hcuts ih =>
    rw [slices_of_next hnext, List.flatMap_cons, ih hcuts.left_eq_nil, hcuts.cut]

/-- A step gives the item that is read next. -/
theorem itemsFrom_of_next {cursor behind : Cursor} {slice : Slice}
    (h : cursor.next = some (slice, behind)) (taken : List Item) :
    itemsFrom cursor.left cursor.line taken =
      if behind.finished then (slice.item :: taken).reverse
      else itemsFrom behind.left behind.line (slice.item :: taken) := by
  have hfinished := (cuts_of_next h).1
  simp only [next, hfinished, Bool.false_eq_true, if_false] at h
  split at h
  · next e hskip =>
    obtain ⟨rfl, rfl⟩ := Prod.mk.inj (Option.some.inj h)
    rw [itemsFrom]
    split <;> simp_all
  · next line hskip =>
    obtain ⟨rfl, rfl⟩ := Prod.mk.inj (Option.some.inj h)
    rw [itemsFrom_eof taken hskip]
    rfl
  · next c rest line hskip =>
    obtain ⟨rfl, rfl⟩ := Prod.mk.inj (Option.some.inj h)
    rw [itemsFrom_item taken hskip]
    rfl

/-- The slices hold the items. -/
theorem itemsFrom_eq_slices (cursor : Cursor) (h : cursor.finished = false) (taken : List Item) :
    itemsFrom cursor.left cursor.line taken =
      taken.reverse ++ cursor.slices.map Slice.item := by
  induction cursor using steps_induction generalizing taken with
  | finished cursor hfinished => exact absurd (h.symm.trans hfinished) (by simp)
  | step cursor slice behind _ hnext _ ih =>
    rw [itemsFrom_of_next hnext, slices_of_next hnext]
    cases hbehind : behind.finished with
    | true => simp [slices_of_finished hbehind]
    | false => simp [ih hbehind]

/-- The last slice, and no other, holds an item that ends the text. -/
theorem slices_eq_append (cursor : Cursor) (h : cursor.finished = false) :
    ∃ front last, cursor.slices = front ++ [last] ∧ (∀ slice ∈ front, ¬ EndsText slice.item) ∧
      EndsText last.item := by
  induction cursor using steps_induction with
  | finished cursor hfinished => exact absurd (h.symm.trans hfinished) (by simp)
  | step cursor slice behind _ hnext hcuts ih =>
    rw [slices_of_next hnext]
    cases hbehind : behind.finished with
    | true =>
      rw [slices_of_finished hbehind]
      exact ⟨[], slice, rfl, by simp, hcuts.finished_iff.mp hbehind⟩
    | false =>
      obtain ⟨front, last, hslices, hfront, hlast⟩ := ih hbehind
      refine ⟨slice :: front, last, by rw [hslices, List.cons_append], ?_, hlast⟩
      refine List.forall_mem_cons.mpr ⟨fun hends => ?_, hfront⟩
      exact absurd (hcuts.finished_iff.mpr hends) (by simp [hbehind])

theorem exists_next_of_slices {cursor : Cursor} {slice : Slice} {after : List Slice}
    (h : cursor.slices = slice :: after) :
    ∃ behind, cursor.next = some (slice, behind) ∧ behind.slices = after := by
  cases hfinished : cursor.finished with
  | true => exact absurd ((slices_of_finished hfinished).symm.trans h) (by simp)
  | false =>
    obtain ⟨found, behind, hnext, -⟩ := exists_next hfinished
    rw [slices_of_next hnext] at h
    obtain ⟨rfl, rfl⟩ := List.cons.inj h
    exact ⟨behind, hnext, rfl⟩

/-- Every slice is cut off where the slices before it end and those behind it begin. -/
theorem exists_cuts {cursor : Cursor} {before after : List Slice} {slice : Slice}
    (h : cursor.slices = before ++ slice :: after) :
    ∃ here behind, slice.Cuts here behind ∧
      here.line = cursor.line + (before.flatMap Slice.chars).count '\n' ∧
      after.flatMap Slice.chars = behind.left := by
  induction before generalizing cursor with
  | nil =>
    obtain ⟨behind, hnext, rfl⟩ := exists_next_of_slices h
    have hcuts := (cuts_of_next hnext).2
    exact ⟨cursor, behind, hcuts, rfl, flatMap_chars_slices behind hcuts.left_eq_nil⟩
  | cons first before ih =>
    obtain ⟨second, hnext, hslices⟩ := exists_next_of_slices h
    have hcuts := (cuts_of_next hnext).2
    have hline : second.line = cursor.line + first.chars.count '\n' := by
      apply hcuts.line_eq
      by_contra hfinished
      rw [slices_of_finished (by simpa using hfinished)] at hslices
      exact absurd hslices (by simp)
    obtain ⟨here, behind, hslice, hhere, hafter⟩ := ih hslices
    refine ⟨here, behind, hslice, ?_, hafter⟩
    rw [hhere, hline, List.flatMap_cons, List.count_append, Nat.add_assoc]

/-- No token stands before the line that reading starts on. -/
theorem line_le_of_mem {cursor : Cursor} {slice : Slice} {lexeme : Lexeme}
    (h : slice ∈ cursor.slices) (hitem : slice.item = .ok lexeme) : cursor.line ≤ lexeme.line := by
  obtain ⟨before, after, hslices⟩ := List.append_of_mem h
  obtain ⟨here, behind, hcuts, hline, -⟩ := exists_cuts hslices
  rw [(hcuts.token lexeme hitem).1, hline, Nat.add_assoc]
  exact Nat.le_add_right _ _

/-- Lines of tokens never decrease. -/
theorem pairwise_lines (cursor : Cursor) : cursor.slices.Pairwise fun first second =>
    ∀ lexeme other, first.item = .ok lexeme → second.item = .ok other →
      lexeme.line ≤ other.line := by
  induction cursor using steps_induction with
  | finished cursor h =>
    rw [slices_of_finished h]
    exact .nil
  | step cursor slice behind _ hnext hcuts ih =>
    rw [slices_of_next hnext]
    refine .cons (fun later hlater lexeme other hlexeme hother => ?_) ih
    have hline : behind.line = cursor.line + slice.chars.count '\n' := by
      apply hcuts.line_eq
      by_contra hfinished
      rw [slices_of_finished (by simpa using hfinished)] at hlater
      exact absurd hlater (by simp)
    calc lexeme.line = cursor.line + slice.gap.count '\n' := (hcuts.token lexeme hlexeme).1
      _ ≤ behind.line := by
        rw [hline, Slice.chars, List.count_append, ← Nat.add_assoc]
        exact Nat.le_add_right _ _
      _ ≤ other.line := line_le_of_mem hlater hother

end Cursor

/-! ## Whole texts -/

/-- What the steps of reading take off a text. -/
def slices (source : String) : List Slice :=
  (Cursor.start source).slices

/-- A slice between the characters `before` and `after` of a text. In front of it lie blanks and
comments, as many as there are; the line of a token counts the line breaks before it, and its
characters are the longest that are the text of one token. -/
structure Slice.Stands (before : List Char) (slice : Slice) (after : List Char) : Prop where
  between : Between slice.gap (slice.text ++ after)
  line : ∀ token line, slice.item = .ok ⟨token, line⟩ →
    line = 1 + (before ++ slice.gap).count '\n'
  longest : ∀ token line, slice.item = .ok ⟨token, line⟩ → token ≠ .eof →
    LongestToken token slice.text (slice.text ++ after)

theorem items_eq_slices (source : String) : (slices source).map Slice.item = items source :=
  ((Cursor.start source).itemsFrom_eq_slices rfl []).symm

theorem slice_stands {source : String} {before after : List Slice} {slice : Slice}
    (h : slices source = before ++ slice :: after) :
    slice.Stands (before.flatMap Slice.chars) (after.flatMap Slice.chars) := by
  obtain ⟨here, behind, hcuts, hline, hafter⟩ := Cursor.exists_cuts h
  rw [hafter]
  refine ⟨hcuts.between, fun token line hitem => ?_, fun token line hitem => ?_⟩
  · have hplace : line = here.line + slice.gap.count '\n' := (hcuts.token _ hitem).1
    rw [hplace, hline, List.count_append, Nat.add_assoc]
    rfl
  · exact (hcuts.token _ hitem).2

/-- Reading cuts a text into slices. Calls for the next item give the items of the text, at most one
more than it has characters, and then nothing for ever; the last item, and no other, is the end or
an unterminated comment; the slices make up the text; each token takes the longest text of a token,
on the line it stands on; and lines never decrease. -/
theorem texts_are_cut_into_items (source : String) :
    (∀ count, (Cursor.start source).call count = (slices source)[count]?) ∧
      (slices source).map Slice.item = items source ∧
      (slices source).length ≤ source.length + 1 ∧
      (∃ front last, slices source = front ++ [last] ∧ (∀ slice ∈ front, ¬ EndsText slice.item) ∧
        EndsText last.item) ∧
      (slices source).flatMap Slice.chars = source.toList ∧
      (∀ before slice after, slices source = before ++ slice :: after →
        slice.Stands (before.flatMap Slice.chars) (after.flatMap Slice.chars)) ∧
      (items source).Pairwise fun first second =>
        ∀ lexeme other, first = .ok lexeme → second = .ok other → lexeme.line ≤ other.line := by
  refine ⟨(Cursor.start source).call_eq, items_eq_slices source, ?_,
    (Cursor.start source).slices_eq_append rfl, ?_, fun _ _ _ => slice_stands, ?_⟩
  · have hlength := (Cursor.start source).length_slices_le
    rwa [show (Cursor.start source).steps = source.length + 1 from rfl] at hlength
  · exact (Cursor.start source).flatMap_chars_slices (by simp [Cursor.start])
  · rw [← items_eq_slices, List.pairwise_map]
    exact (Cursor.start source).pairwise_lines

/-- A comparison takes both of its characters, but not the comment behind them. -/
theorem comparison_takes_two_characters :
    ∃ before slice after, slices "n <=/**/2" = before ++ slice :: after ∧
      slice.item = .ok ⟨.punct .le, 1⟩ ∧
        LongestToken (.punct .le) ['<', '='] ['<', '=', '/', '*', '*', '/', '2'] := by
  have hslices : slices "n <=/**/2" =
      [⟨[], ['n'], .ok ⟨.ident "n", 1⟩⟩] ++ ⟨[' '], ['<', '='], .ok ⟨.punct .le, 1⟩⟩ ::
        [⟨['/', '*', '*', '/'], ['2'], .ok ⟨.number 2, 1⟩⟩, ⟨[], [], .ok ⟨.eof, 1⟩⟩] := by
    decide +kernel
  obtain ⟨-, -, -, -, -, hstands, -⟩ := texts_are_cut_into_items "n <=/**/2"
  exact ⟨_, _, _, hslices, rfl, (hstands _ _ _ hslices).longest _ _ rfl (by simp)⟩

end RoomForge.Script
