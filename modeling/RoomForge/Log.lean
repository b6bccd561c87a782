set_option autoImplicit false

/-! # Reports

A report is what a step of the program says on its way, and how it ends (specification, sections 7
and 8). Reports are composed like other fallible computations; what was said before a failure is
kept.

`result_bind`, `result_fold` and `result_mapError` say that how a report ends does not depend on
what was said. Proofs about results use them to leave the messages out.
-/

namespace RoomForge

/-- How much a message matters. -/
inductive Level where
  | error
  | warn
  | info
  | debug
  deriving DecidableEq, Repr, Inhabited

namespace Level

/-- The level's name in front of a message. -/
def label : Level → String
  | error => "ERROR"
  | warn => "WARN"
  | info => "INFO"
  | debug => "DEBUG"

/-- Levels from the one that matters most. -/
def rank : Level → Nat
  | error => 1
  | warn => 2
  | info => 3
  | debug => 4

end Level

/-- One message. -/
structure Message where
  level : Level
  text : String
  deriving DecidableEq, Repr, Inhabited

/-- What was said, in order, and how it ended. -/
structure Report (ε α : Type) where
  log : List Message
  result : Except ε α

namespace Report

variable {ε ε' α β σ : Type}

/-- Ends without a word. -/
def ofExcept (result : Except ε α) : Report ε α :=
  ⟨[], result⟩

/-- Says `text`. -/
def say (level : Level) (text : String) : Report ε Unit :=
  ⟨[⟨level, text⟩], .ok ()⟩

/-- Goes on with `next`, unless `first` failed. -/
def bind (first : Report ε α) (next : α → Report ε β) : Report ε β :=
  match first.result with
  | .ok value =>
    let rest := next value
    ⟨first.log ++ rest.log, rest.result⟩
  | .error e => ⟨first.log, .error e⟩

instance : Monad (Report ε) where
  pure value := ⟨[], .ok value⟩
  bind := Report.bind

/-- Fails. -/
def fail (e : ε) : Report ε α :=
  ⟨[], .error e⟩

/-- Replaces the cause of a failure. -/
def mapError (f : ε → ε') (report : Report ε α) : Report ε' α :=
  ⟨report.log, report.result.mapError f⟩

/-- What `foldFrom` says and answers, behind the messages in `said` (last first). -/
def foldFrom (step : σ → α → Report ε σ) : List α → σ → (said : List Message) → Report ε σ
  | [], state, said => ⟨said.reverse, .ok state⟩
  | item :: rest, state, said =>
    let report := step state item
    let said := report.log.reverse ++ said
    match report.result with
    | .ok state => foldFrom step rest state said
    | .error e => ⟨said.reverse, .error e⟩

/-- Takes the items of a list one after the other, up to the first failure. -/
def fold (step : σ → α → Report ε σ) (state : σ) (items : List α) : Report ε σ :=
  foldFrom step items state []

/-- Does `step` for every item of a list, up to the first failure. -/
def each (step : α → Report ε β) (items : List α) : Report ε (List β) := do
  let results ← fold (fun done item => do return (← step item) :: done) [] items
  return results.reverse

@[simp] theorem result_pure (value : α) : (pure value : Report ε α).result = .ok value := rfl

@[simp] theorem log_pure (value : α) : (pure value : Report ε α).log = [] := rfl

/-- How a composed report ends does not depend on what was said. -/
@[simp] theorem result_bind (first : Report ε α) (next : α → Report ε β) :
    (first >>= next).result = first.result >>= fun value => (next value).result := by
  show (Report.bind first next).result = _
  unfold Report.bind
  cases first.result <;> rfl

@[simp] theorem result_say (level : Level) (text : String) :
    (say level text : Report ε Unit).result = .ok () := rfl

@[simp] theorem result_ofExcept (result : Except ε α) : (ofExcept result).result = result := rfl

@[simp] theorem result_mapError (f : ε → ε') (report : Report ε α) :
    (report.mapError f).result = report.result.mapError f := rfl

/-- How a walk through a list ends does not depend on what was said. -/
theorem result_foldFrom (step : σ → α → Report ε σ) (items : List α) (state : σ)
    (said : List Message) :
    (foldFrom step items state said).result =
      items.foldlM (fun state item => (step state item).result) state := by
  induction items generalizing state said with
  | nil => rfl
  | cons item rest ih =>
    simp only [foldFrom, List.foldlM_cons]
    cases (step state item).result with
    | ok state => exact ih state _
    | error e => rfl

/-- How a walk through a list ends does not depend on what was said. -/
theorem result_fold (step : σ → α → Report ε σ) (state : σ) (items : List α) :
    (fold step state items).result =
      items.foldlM (fun state item => (step state item).result) state :=
  result_foldFrom step items state []

end Report

end RoomForge
