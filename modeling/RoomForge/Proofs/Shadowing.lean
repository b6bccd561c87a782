import RoomForge.Code.Scope

set_option autoImplicit false

/-! # What hides what

Scopes are opened and left from a room's scope on, and names are declared in the innermost one
(specification, section 4.2). Told by declarations alone, the innermost scope that declares a name
decides, and in it the latest declaration; a name without a declaration is a function of the room, a
variable of the engine or one of its functions.

The scopes follow that rule with one exception: in one scope, a variable hides a constant of its
name that is declared after it. `names_mean_their_latest_declaration` says that there is no other,
and `late_constant_is_masked` is an example.
-/

namespace RoomForge.Code

open RoomForge.Script

/-! ## Declarations -/

/-- A declaration in a scope. -/
inductive Declaration where
  | constant (constant : Constant)
  | slot (name : String) (slot : UInt8)
  deriving Repr, Inhabited

namespace Declaration

/-- The declared name. -/
def name : Declaration → String
  | .constant given => given.name
  | .slot given _ => given

/-- What the declared name stands for. -/
def meaning : Declaration → Meaning
  | .constant given => .constant given.value
  | .slot _ index => .slot index

/-- The constant that is declared. -/
def constant? : Declaration → Option Constant
  | .constant given => some given
  | .slot _ _ => none

/-- The variable that is declared, with its slot. -/
def slotEntry? : Declaration → Option (String × UInt8)
  | .constant _ => none
  | .slot given index => some (given, index)

end Declaration

/-- The declarations of the open scopes: the innermost scope first, in each the latest first. -/
abbrev History := List (List Declaration)

/-- What is done with the scopes of a room. -/
inductive ScopeStep where
  | enter (kind : FrameKind)
  | leave
  | declare (declaration : Declaration)
  deriving Repr, Inhabited

/-- One step. The scope of the room is not left. -/
def Scope.step (scope : Scope) : ScopeStep → Scope
  | .enter kind => scope.push kind
  | .leave =>
    match scope with
    | _ :: outer :: others => outer :: others
    | room => room
  | .declare (.constant constant) => scope.declareConst constant
  | .declare (.slot name slot) => scope.declareLocal name slot

namespace History

/-- The declarations after one step. -/
def step (history : History) : ScopeStep → History
  | .enter _ => [] :: history
  | .leave =>
    match history with
    | _ :: outer :: others => outer :: others
    | room => room
  | .declare declaration => history.modifyHead (declaration :: ·)

/-- The declarations of a room's scope. -/
def ofRoom (constants : List Constant) : History :=
  [constants.reverse.map .constant]

/-- The innermost scope that declares a name. -/
def innermost? (history : History) (name : String) : Option (List Declaration) :=
  history.find? fun declarations => declarations.any (·.name == name)

/-- The latest declaration of a name in the innermost scope that declares it. -/
def latest? (history : History) (name : String) : Option Declaration :=
  (history.innermost? name).bind fun declarations => declarations.find? (·.name == name)

end History

/-- What a name stands for if no scope declares it. -/
def undeclared? (routines : List Routine) (name : String) : Option Meaning :=
  match routines.find? (·.name == name), Engine.global? name with
  | some routine, _ => some (.routine routine)
  | none, some id => some (.global id)
  | none, none => (Engine.builtin? name).map .builtin

/-- What a name stands for by the order of declarations. -/
def History.lexical? (routines : List Routine) (history : History) (name : String) :
    Option Meaning :=
  match history.latest? name with
  | some declaration => some declaration.meaning
  | none => undeclared? routines name

/-- The slot of the latest variable called `name`. -/
def slotIn? (declarations : List Declaration) (name : String) : Option UInt8 :=
  ((declarations.filterMap Declaration.slotEntry?).find? (·.1 == name)).map Prod.snd

/-- What a name stands for in one scope: the latest variable of that name, or the latest constant if
there is no variable. -/
def meaningIn? (declarations : List Declaration) (name : String) : Option Meaning :=
  match slotIn? declarations name with
  | some slot => some (.slot slot)
  | none => (declarations.find? (·.name == name)).map Declaration.meaning

/-- The slot of a variable that is declared in the same scope as a constant of its name, before
it. -/
def History.masking? (history : History) (name : String) : Option UInt8 :=
  match history.innermost? name with
  | none => none
  | some declarations =>
    match declarations.find? (·.name == name) with
    | some (.constant _) => slotIn? declarations name
    | _ => none

/-! ## Scopes hold their declarations -/

/-- A frame holds the given declarations, variables and constants apart, and functions. -/
structure Frame.Holds (frame : Frame) (routines : List Routine) (declarations : List Declaration) :
    Prop where
  locals_eq : frame.locals = declarations.filterMap Declaration.slotEntry?
  constants_eq : frame.constants.entries = declarations.filterMap Declaration.constant?
  routines_eq : frame.routines.entries = routines

/-- Scopes hold the declarations of a history. Only the room's scope has functions. -/
inductive Scope.Holds (routines : List Routine) : Scope → History → Prop where
  | room {frame : Frame} {declarations : List Declaration}
    (h : frame.Holds routines declarations) : Holds routines [frame] [declarations]
  | inner {frame : Frame} {declarations : List Declaration} {scope : Scope} {history : History}
    (h : frame.Holds [] declarations) (houter : Holds routines scope history) :
    Holds routines (frame :: scope) (declarations :: history)

theorem Scope.holds_ofRoom (constants : List Constant) (routines : List Routine) :
    Scope.Holds routines (.ofRoom constants routines) (.ofRoom constants) := by
  refine .room ⟨?_, ?_, ?_⟩
  · simp [List.filterMap_map, Function.comp_def, Declaration.slotEntry?]
  · simp [List.filterMap_map, Function.comp_def, Declaration.constant?]
  · simp

theorem Frame.Holds.declare {frame : Frame} {routines : List Routine}
    {declarations : List Declaration} (h : frame.Holds routines declarations) :
    (∀ constant, ({ frame with constants := frame.constants.push constant } : Frame).Holds routines
      (.constant constant :: declarations)) ∧
    ∀ name slot, ({ frame with locals := (name, slot) :: frame.locals } : Frame).Holds routines
      (.slot name slot :: declarations) := by
  obtain ⟨hlocals, hconstants, hroutines⟩ := h
  constructor
  · intro constant
    exact ⟨hlocals, by simp [hconstants, Declaration.constant?], hroutines⟩
  · intro name slot
    exact ⟨by simp [hlocals, Declaration.slotEntry?], hconstants, hroutines⟩

/-- A step keeps scopes and declarations together. -/
theorem Scope.Holds.step {routines : List Routine} {scope : Scope} {history : History}
    (h : Scope.Holds routines scope history) (step : ScopeStep) :
    Scope.Holds routines (scope.step step) (history.step step) := by
  cases step with
  | enter kind => exact .inner ⟨rfl, rfl, rfl⟩ h
  | leave =>
    cases h with
    | room h => exact .room h
    | inner h houter =>
      cases houter with
      | room houter => exact .room houter
      | inner houter hothers => exact .inner houter hothers
  | declare declaration =>
    cases declaration with
    | constant constant =>
      cases h with
      | room h => exact .room (h.declare.1 constant)
      | inner h houter => exact .inner (h.declare.1 constant) houter
    | slot name slot =>
      cases h with
      | room h => exact .room (h.declare.2 name slot)
      | inner h houter => exact .inner (h.declare.2 name slot) houter

theorem Scope.Holds.run {routines : List Routine} {scope : Scope} {history : History}
    (h : Scope.Holds routines scope history) (steps : List ScopeStep) :
    Scope.Holds routines (steps.foldl Scope.step scope) (steps.foldl History.step history) := by
  induction steps generalizing scope history with
  | nil => exact h
  | cons step rest ih => exact ih (h.step step)

/-! ## Looking up a name -/

section

variable {declarations : List Declaration} {name : String}

/-- A variable that is the latest declaration of its name is found. -/
theorem slotIn?_of_latest {other : String} {slot : UInt8}
    (h : declarations.find? (·.name == name) = some (.slot other slot)) :
    slotIn? declarations name = some slot := by
  induction declarations with
  | nil => exact absurd h (by simp)
  | cons declaration rest ih =>
    rw [List.find?_cons] at h
    split at h
    · next hname =>
      obtain rfl := Option.some.inj h
      simp only [Declaration.name] at hname
      simp [slotIn?, Declaration.slotEntry?, hname]
    · next hname =>
      cases declaration with
      | constant given => simpa [slotIn?, Declaration.slotEntry?] using ih h
      | slot given index =>
        simp only [Declaration.name] at hname
        simpa [slotIn?, Declaration.slotEntry?, hname] using ih h

/-- Without a variable of that name, the latest declaration of a name is the latest constant. -/
theorem find?_constants (h : slotIn? declarations name = none) :
    ((declarations.filterMap Declaration.constant?).find? (·.name == name)).map
        (fun constant => Meaning.constant constant.value) =
      (declarations.find? (·.name == name)).map Declaration.meaning := by
  induction declarations with
  | nil => rfl
  | cons declaration rest ih =>
    cases declaration with
    | constant constant =>
      have hrest := ih (by simpa [slotIn?, Declaration.slotEntry?] using h)
      by_cases hname : (constant.name == name) = true
      · simp [Declaration.constant?, Declaration.name, Declaration.meaning, hname]
      · simpa [Declaration.constant?, Declaration.name, hname] using hrest
    | slot own slot =>
      have hname : ¬ (own == name) = true := by
        intro hname
        simp [slotIn?, Declaration.slotEntry?, hname] at h
      have hrest := ih (by simpa [slotIn?, Declaration.slotEntry?, hname] using h)
      simpa [Declaration.constant?, Declaration.name, hname] using hrest

/-- In one frame, declarations come before functions. -/
theorem Frame.Holds.find?_eq {frame : Frame} {routines : List Routine}
    (h : frame.Holds routines declarations) (name : String) :
    frame.find? name =
      (meaningIn? declarations name).or ((routines.find? (·.name == name)).map .routine) := by
  obtain ⟨hlocals, hconstants, hroutines⟩ := h
  unfold Frame.find? meaningIn?
  rw [hlocals, NameTable.find?_eq, NameTable.find?_eq, hconstants, hroutines]
  cases hslot : slotIn? declarations name with
  | some slot =>
    obtain ⟨entry, hentry, rfl⟩ := Option.map_eq_some_iff.mp hslot
    rw [hentry]
    rfl
  | none =>
    have hconstant := find?_constants hslot
    rw [slotIn?, Option.map_eq_none_iff] at hslot
    rw [hslot, ← hconstant]
    cases (declarations.filterMap Declaration.constant?).find? (·.name == name) with
    | some constant => rfl
    | none => rfl

/-- A name stands for something in a scope if the scope declares it. -/
theorem isSome_meaningIn? (declarations : List Declaration) (name : String) :
    (meaningIn? declarations name).isSome = declarations.any (·.name == name) := by
  unfold meaningIn?
  cases hslot : slotIn? declarations name with
  | some slot =>
    obtain ⟨entry, hentry, -⟩ := Option.map_eq_some_iff.mp hslot
    obtain ⟨declaration, hmem, hvariable⟩ :=
      List.mem_filterMap.mp (List.mem_of_find?_eq_some hentry)
    have hname := List.find?_some hentry
    cases declaration with
    | constant given => exact absurd hvariable (by simp [Declaration.slotEntry?])
    | slot given index =>
      obtain rfl := Option.some.inj hvariable
      exact (List.any_eq_true.mpr ⟨_, hmem, hname⟩).symm
  | none => rw [Option.isSome_map, List.isSome_find?]

end

/-- A name is looked up in the innermost scope that declares it. -/
theorem Scope.Holds.resolve?_eq {routines : List Routine} {scope : Scope} {history : History}
    (h : Scope.Holds routines scope history) (name : String) :
    scope.resolve? name =
      match history.innermost? name with
      | some declarations => meaningIn? declarations name
      | none => undeclared? routines name := by
  induction h with
  | @room frame declarations hframe =>
    have hdeclared := isSome_meaningIn? declarations name
    rw [Scope.resolve?, hframe.find?_eq, History.innermost?, List.find?_cons, ← hdeclared]
    cases hmeaning : meaningIn? declarations name with
    | some meaning => exact hmeaning.symm
    | none =>
      simp only [undeclared?, Scope.resolve?]
      cases routines.find? (·.name == name) with
      | some routine => rfl
      | none => cases Engine.global? name <;> rfl
  | @inner frame declarations scope history hframe _ ih =>
    have hdeclared := isSome_meaningIn? declarations name
    rw [Scope.resolve?, hframe.find?_eq, History.innermost?, List.find?_cons, ← hdeclared]
    cases hmeaning : meaningIn? declarations name with
    | some meaning => exact hmeaning.symm
    | none => exact ih

/-- By the order of declarations a name has the same meaning, unless a constant is declared after a
variable of its name. -/
theorem History.meaning_eq (routines : List Routine) (history : History) (name : String) :
    (match history.innermost? name with
      | some declarations => meaningIn? declarations name
      | none => undeclared? routines name) =
      match history.masking? name with
      | some slot => some (.slot slot)
      | none => history.lexical? routines name := by
  unfold History.masking? History.lexical? History.latest?
  cases hinnermost : history.innermost? name with
  | none => rfl
  | some declarations =>
    have hany := List.find?_some hinnermost
    simp only [Option.bind_some]
    cases hlatest : declarations.find? (·.name == name) with
    | none =>
      rw [← List.isSome_find?, hlatest] at hany
      exact absurd hany (by simp)
    | some declaration =>
      cases declaration with
      | constant given =>
        simp only [meaningIn?, hlatest]
        cases slotIn? declarations name <;> rfl
      | slot given index => simp only [meaningIn?, slotIn?_of_latest hlatest, Declaration.meaning]

/-- A masked name stands for a constant by the order of declarations. -/
theorem History.lexical?_of_masking? (routines : List Routine) {history : History} {name : String}
    {slot : UInt8} (h : history.masking? name = some slot) :
    ∃ value, history.lexical? routines name = some (.constant value) := by
  unfold History.masking? at h
  split at h
  · exact absurd h (by simp)
  · next declarations hinnermost =>
    split at h
    · next constant hlatest =>
      refine ⟨constant.value, ?_⟩
      simp [History.lexical?, History.latest?, hinnermost, hlatest, Declaration.meaning]
    · exact absurd h (by simp)

/-- However scopes are opened and left from a room's scope on and names declared in them, a name
stands for its latest declaration in the innermost scope that declares it, or else for a function of
the room, a variable of the engine or a function of the engine. The only exception is a constant
that is declared after a variable of its name, in the same scope: the name stands for the
variable. -/
theorem names_mean_their_latest_declaration (constants : List Constant) (routines : List Routine)
    (steps : List ScopeStep) (name : String) :
    let scope := steps.foldl Scope.step (.ofRoom constants routines)
    let history := steps.foldl History.step (.ofRoom constants)
    scope.resolve? name =
        (match history.masking? name with
        | some slot => some (.slot slot)
        | none => history.lexical? routines name) ∧
      (scope.resolve? name = history.lexical? routines name ↔ history.masking? name = none) := by
  intro scope history
  have hholds : Scope.Holds routines scope history :=
    (Scope.holds_ofRoom constants routines).run steps
  have hresolve : scope.resolve? name =
      match history.masking? name with
      | some slot => some (.slot slot)
      | none => history.lexical? routines name := by
    rw [hholds.resolve?_eq name, History.meaning_eq]
  refine ⟨hresolve, ?_⟩
  rw [hresolve]
  cases hmasking : history.masking? name with
  | none => simp
  | some slot =>
    obtain ⟨value, hvalue⟩ := History.lexical?_of_masking? routines hmasking
    simp [hvalue]

/-- A constant that is declared after a variable of its name does not hide it. -/
theorem late_constant_is_masked :
    let steps : List ScopeStep :=
      [.enter .function, .declare (.slot "x" 3), .declare (.constant ⟨"x", 7⟩)]
    (steps.foldl Scope.step (.ofRoom [] [])).resolve? "x" = some (.slot 3) ∧
      (steps.foldl History.step (.ofRoom [])).lexical? [] "x" = some (.constant 7) := by
  constructor
  · rfl
  · rfl

end RoomForge.Code
