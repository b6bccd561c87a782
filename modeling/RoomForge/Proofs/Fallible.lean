import Mathlib.Data.List.Forall2

set_option autoImplicit false

/-! # Computations that can fail

What the success of a composed computation says about its parts, and how lists that are related
entry by entry are walked through. These are the laws of `Except`, `Option` and `List.Forall₂` that
the other modules share; none of them knows anything of the program.
-/

namespace RoomForge

variable {ε α β : Type}

/-- A composed computation succeeds if both of its parts do. -/
theorem bind_eq_ok_iff {first : Except ε α} {next : α → Except ε β} {result : β} :
    first >>= next = .ok result ↔ ∃ middle, first = .ok middle ∧ next middle = .ok result := by
  cases first with
  | error e => simp [bind, Except.bind]
  | ok middle => simp [bind, Except.bind]

/-- A composed computation fails if one of its parts does. -/
theorem bind_eq_error_iff {first : Except ε α} {next : α → Except ε β} {e : ε} :
    first >>= next = .error e ↔
      first = .error e ∨ ∃ middle, first = .ok middle ∧ next middle = .error e := by
  cases first with
  | error e => simp [bind, Except.bind]
  | ok middle => simp [bind, Except.bind]

theorem ok_bind (value : α) (next : α → Except ε β) : .ok value >>= next = next value :=
  rfl

theorem bind_of_eq_ok {first : Except ε α} {next : α → Except ε β} {value : α}
    (h : first = .ok value) : first >>= next = next value := by
  rw [h]
  rfl

theorem mapError_eq_ok_iff {ε' : Type} {f : ε → ε'} {first : Except ε α} {result : α} :
    first.mapError f = .ok result ↔ first = .ok result := by
  cases first with
  | error e => simp [Except.mapError]
  | ok value => simp [Except.mapError]

theorem map_eq_ok_iff {f : α → β} {first : Except ε α} {result : β} :
    first.map f = .ok result ↔ ∃ middle, first = .ok middle ∧ f middle = result := by
  cases first with
  | error e => simp [Except.map]
  | ok middle => simp [Except.map]

/-- A function that can fail succeeds on a list if it does on every member. -/
theorem mapM_eq_some_iff {f : α → Option β} {items : List α} {results : List β} :
    items.mapM f = some results ↔ List.Forall₂ (fun item result => f item = some result) items
      results := by
  induction items generalizing results with
  | nil => simp [eq_comm]
  | cons item rest ih =>
    rw [List.mapM_cons, List.forall₂_cons_left_iff]
    constructor
    · intro h
      obtain ⟨head, hhead, htail⟩ := Option.bind_eq_some_iff.mp h
      obtain ⟨tail, hrest, hresults⟩ := Option.bind_eq_some_iff.mp htail
      exact ⟨head, tail, hhead, ih.mp hrest, (Option.some.inj hresults).symm⟩
    · rintro ⟨head, tail, hhead, hrest, rfl⟩
      simp [hhead, ih.mpr hrest]

/-- A function that can fail succeeds on a list if it does on every member. -/
theorem mapM_eq_ok_iff {f : α → Except ε β} {items : List α} {results : List β} :
    items.mapM f = .ok results ↔ List.Forall₂ (fun item result => f item = .ok result) items
      results := by
  induction items generalizing results with
  | nil => simp [pure, Except.pure, eq_comm]
  | cons item rest ih =>
    rw [List.mapM_cons, List.forall₂_cons_left_iff, bind_eq_ok_iff]
    constructor
    · rintro ⟨head, hhead, htail⟩
      obtain ⟨tail, hrest, hresults⟩ := bind_eq_ok_iff.mp htail
      exact ⟨head, tail, hhead, ih.mp hrest, (Except.ok.inj hresults).symm⟩
    · rintro ⟨head, tail, hhead, hrest, rfl⟩
      exact ⟨head, hhead, bind_eq_ok_iff.mpr ⟨tail, ih.mpr hrest, rfl⟩⟩

/-- A function that can fail fails on a list as it does on the first member where it fails. -/
theorem mapM_eq_error_iff {f : α → Except ε β} {items : List α} {e : ε} :
    items.mapM f = .error e ↔ ∃ (index : Nat) (item : α), items[index]? = some item ∧
      f item = .error e ∧ ∀ before < index, ∀ earlier, items[before]? = some earlier →
        ∃ result, f earlier = .ok result := by
  induction items with
  | nil => simp [pure, Except.pure]
  | cons item rest ih =>
    rw [List.mapM_cons, bind_eq_error_iff]
    constructor
    · rintro (hitem | ⟨head, hitem, htail⟩)
      · exact ⟨0, item, rfl, hitem, by simp⟩
      · have hrest : rest.mapM f = .error e := by
          simpa [bind_eq_error_iff, pure, Except.pure] using htail
        obtain ⟨index, other, hother, hfails, hearlier⟩ := ih.mp hrest
        refine ⟨index + 1, other, hother, hfails, ?_⟩
        rintro (_ | before) hbefore earlier hfound
        · exact ⟨head, Option.some.inj hfound ▸ hitem⟩
        · exact hearlier before (Nat.lt_of_succ_lt_succ hbefore) earlier hfound
    · rintro ⟨_ | index, other, hother, hfails, hearlier⟩
      · exact .inl (Option.some.inj hother ▸ hfails)
      · obtain ⟨head, hitem⟩ := hearlier 0 (Nat.succ_pos index) item rfl
        have hrest : rest.mapM f = .error e := ih.mpr ⟨index, other, hother, hfails,
          fun before hbefore => hearlier (before + 1) (Nat.succ_lt_succ hbefore)⟩
        exact .inr ⟨head, hitem, bind_eq_error_iff.mpr (.inl hrest)⟩

theorem exists_ok_of_isOk {ε α : Type} {result : Except ε α} (h : result.isOk = true) :
    ∃ value, result = .ok value := by
  cases result with
  | ok value => exact ⟨value, rfl⟩
  | error fault => exact absurd h (by simp [Except.isOk, Except.toBool])

theorem toOption_eq_some_iff {result : Except ε α} {value : α} :
    result.toOption = some value ↔ result = .ok value := by
  cases result with
  | error fault => simp [Except.toOption]
  | ok found => simp [Except.toOption]

theorem exists_forall₂ {R : α → β → Prop} {items : List α}
    (h : ∀ item ∈ items, ∃ result, R item result) :
    ∃ results, List.Forall₂ R items results := by
  induction items with
  | nil => exact ⟨[], .nil⟩
  | cons item rest ih =>
    obtain ⟨head, hhead⟩ := h item List.mem_cons_self
    obtain ⟨tail, htail⟩ := ih fun other hother => h other (List.mem_cons_of_mem item hother)
    exact ⟨head :: tail, .cons hhead htail⟩

theorem forall₂_singleton_left_iff {R : α → β → Prop} {item : α} {results : List β} :
    List.Forall₂ R [item] results ↔ ∃ result, R item result ∧ results = [result] := by
  rw [List.forall₂_cons_left_iff]
  simp

theorem exists_left_of_forall₂ {R : α → β → Prop} {items : List α} {results : List β}
    (h : List.Forall₂ R items results) {result : β} (hresult : result ∈ results) :
    ∃ item ∈ items, R item result := by
  induction h with
  | nil => exact absurd hresult List.not_mem_nil
  | cons hhead _ ih =>
    rcases List.mem_cons.mp hresult with rfl | hmem
    · exact ⟨_, List.mem_cons_self, hhead⟩
    · obtain ⟨item, hitem, hrelated⟩ := ih hmem
      exact ⟨item, List.mem_cons_of_mem _ hitem, hrelated⟩

/-- Where all items succeed, each does. -/
theorem exists_ok_of_mapM {f : α → Except ε β} {items : List α} {results : List β}
    (h : items.mapM f = .ok results) {item : α} (hitem : item ∈ items) :
    ∃ result, f item = .ok result := by
  obtain ⟨result, -, hresult⟩ := exists_left_of_forall₂ (mapM_eq_ok_iff.mp h).flip hitem
  exact ⟨result, hresult⟩

/-- Partners have the same number. -/
theorem rel_getElem? {R : α → β → Prop} {items : List α} {results : List β}
    (h : List.Forall₂ R items results) (index : Nat) :
    Option.Rel R items[index]? results[index]? := by
  induction h generalizing index with
  | nil => exact .none
  | cons hhead _ ih =>
    cases index with
    | zero => exact .some hhead
    | succ index => exact ih index

theorem exists_getElem?_of_forall₂ {R : α → β → Prop} {items : List α} {results : List β}
    (h : List.Forall₂ R items results) {index : Nat} {item : α}
    (hitem : items[index]? = some item) :
    ∃ result, results[index]? = some result ∧ R item result := by
  have hrel := rel_getElem? h index
  rw [hitem] at hrel
  generalize hresult : results[index]? = found at hrel
  cases hrel with
  | some hpartner => exact ⟨_, rfl, hpartner⟩

/-- Partners with the same view give the same row of views. -/
theorem map_eq_map_of_forall₂ {γ : Type} {R : α → β → Prop} {f : α → γ} {g : β → γ}
    {items : List α} {results : List β} (h : List.Forall₂ R items results)
    (hview : ∀ item result, R item result → f item = g result) :
    items.map f = results.map g := by
  rw [← List.forall₂_eq_eq_eq, List.forall₂_map_left_iff, List.forall₂_map_right_iff]
  exact h.imp hview

/-- Results that are made from values, one by one, are made from a row of values. -/
theorem forall₂_exists_iff {γ : Type} {R : α → γ → Prop} {f : γ → β} {items : List α}
    {results : List β} :
    List.Forall₂ (fun item result => ∃ value, R item value ∧ result = f value) items results ↔
      ∃ values, List.Forall₂ R items values ∧ results = values.map f := by
  constructor
  · intro h
    induction h with
    | nil => exact ⟨[], .nil, rfl⟩
    | cons hhead _ ih =>
      obtain ⟨value, hvalue, rfl⟩ := hhead
      obtain ⟨values, hvalues, rfl⟩ := ih
      exact ⟨value :: values, .cons hvalue hvalues, rfl⟩
  · rintro ⟨values, hvalues, rfl⟩
    induction hvalues with
    | nil => exact .nil
    | cons hhead _ ih => exact .cons ⟨_, hhead, rfl⟩ ih

/-- Numbers of items count their partners too. -/
theorem forall₂_of_common {γ : Type} {R : α → β → Prop} {S : α → γ → Prop} {T : β → γ → Prop}
    {items : List α} {results : List β} {results' : List γ} (h : List.Forall₂ R items results)
    (h' : List.Forall₂ S items results') (hcommon : ∀ item result result', R item result →
      S item result' → T result result') : List.Forall₂ T results results' := by
  induction h generalizing results' with
  | nil =>
    cases h'
    exact .nil
  | cons hhead _ ih =>
    cases h' with
    | cons hhead' hrest' => exact .cons (hcommon _ _ _ hhead hhead') (ih hrest')

theorem forall₂_zipIdx_comm {R : α → Nat → β → Prop} {items : List α} {results : List β}
    {start : Nat} :
    List.Forall₂ (fun numbered result => R numbered.1 numbered.2 result) (items.zipIdx start)
        results ↔
      List.Forall₂ (fun numbered item => R item numbered.2 numbered.1) (results.zipIdx start)
        items := by
  induction items generalizing results start with
  | nil => cases results <;> simp
  | cons item rest ih => cases results <;> simp [ih]

/-! ## Failures that do not occur -/

/-- A computation does not fail in a way that `bad` describes. -/
def Avoids (bad : ε → Prop) (result : Except ε α) : Prop :=
  ∀ fault, result = .error fault → ¬ bad fault

namespace Avoids

variable {bad : ε → Prop}

theorem ok {value : α} : Avoids bad (.ok value : Except ε α) := by
  intro fault h
  exact absurd h (by simp)

theorem error {fault : ε} (h : ¬ bad fault) : Avoids bad (.error fault : Except ε α) := by
  intro other hother
  rwa [← Except.error.inj hother]

theorem bind {first : Except ε α} {next : α → Except ε β} (hfirst : Avoids bad first)
    (hnext : ∀ value, first = .ok value → Avoids bad (next value)) :
    Avoids bad (first >>= next) := by
  cases first with
  | error fault => exact .error (hfirst fault rfl)
  | ok value => exact hnext value rfl

theorem map {f : α → β} {result : Except ε α} (h : Avoids bad result) :
    Avoids bad (result.map f) := by
  cases result with
  | error fault => exact .error (h fault rfl)
  | ok value => exact .ok

theorem mapM {f : α → Except ε β} {items : List α} (h : ∀ item ∈ items, Avoids bad (f item)) :
    Avoids bad (items.mapM f) := by
  induction items with
  | nil => exact .ok
  | cons item rest ih =>
    rw [List.mapM_cons]
    refine (h item List.mem_cons_self).bind fun head _ => ?_
    refine (ih fun other hother => h other (List.mem_cons_of_mem item hother)).bind fun tail _ => ?_
    exact .ok

end Avoids

end RoomForge
