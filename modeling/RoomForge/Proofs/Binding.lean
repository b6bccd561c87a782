import Mathlib.Data.List.Nodup
import RoomForge.Proofs.Parsing
import RoomForge.Proofs.Reports
import RoomForge.Room.Session

set_option autoImplicit false

/-! # The places of functions

A room reads its scripts function by function and keeps what it has read so far in its bindings
(specification, section 4.3). `Bindings.Binds` says what that is in terms of the functions alone,
and `bindScripts_eq_ok_iff` which scripts are bound: those whose functions are `Admissible`, with
different names, none inlined that has a role of its own, and with a number for each that gets one.
Then `Bound.ofScripts` is what the room has of them.

Numbers are counted in words, and functions without a bound. `numberCapacity` is how many functions
can be numbered before the run ends; only `Proofs.Numbering` has to look at the counter again.
-/

namespace RoomForge

/-! ## Lists without repeated names -/

section

variable {α β : Type} {name : α → β}

theorem nodup_map_append_singleton_iff {items : List α} {item : α} :
    ((items ++ [item]).map name).Nodup ↔ (items.map name).Nodup ∧ name item ∉ items.map name := by
  rw [List.map_append, List.map_singleton, List.nodup_append]
  simp

theorem nodup_map_of_append {first second : List α} (h : ((first ++ second).map name).Nodup) :
    (first.map name).Nodup := by
  rw [List.map_append] at h
  exact (List.nodup_append.mp h).1

/-- Looking for a name finds the item that has it. -/
theorem find?_eq_some_iff_of_nodup [BEq β] [LawfulBEq β] {items : List α}
    (hdistinct : (items.map name).Nodup) {key : β} {item : α} :
    (items.find? fun item => name item == key) = some item ↔ item ∈ items ∧ name item = key := by
  constructor
  · intro h
    exact ⟨List.mem_of_find?_eq_some h, by simpa using List.find?_some h⟩
  · rintro ⟨hitem, rfl⟩
    cases hfound : items.find? fun other => name other == name item with
    | none => exact absurd (List.find?_eq_none.mp hfound item hitem) (by simp)
    | some found =>
      have hname : name found = name item := by simpa using List.find?_some hfound
      rw [List.inj_on_of_nodup_map hdistinct (List.mem_of_find?_eq_some hfound) hitem hname]

end

end RoomForge

namespace RoomForge.Script

/-! ## Functions as they are written -/

/-- A function as the text of a script gives it: on a line of the text, without number and code. -/
structure Routine.IsWritten (routine : Routine) : Prop where
  line : 0 < routine.line
  number : routine.number = none
  code : routine.code = none

theorem line_le_lineAfter (c : Char) (line : Nat) : line ≤ lineAfter c line := by
  unfold lineAfter
  split <;> omega

theorem line_le_of_skipTrivia {state : Trivia} {cs rest : List Char} {line behind : Nat}
    (h : skipTrivia state cs line = .ok (rest, behind)) : line ≤ behind := by
  fun_induction skipTrivia state cs line with
  | case1 line | case6 line =>
    obtain ⟨-, rfl⟩ := Prod.mk.inj (Except.ok.inj h)
    exact Nat.le_refl line
  | case2 rest line ih | case3 rest line ih => exact ih h
  | case4 c rest line _ _ _ ih | case7 c rest line ih | case9 start star c rest line ih =>
    exact Nat.le_trans (line_le_lineAfter c line) (ih h)
  | case5 c rest line =>
    obtain ⟨-, rfl⟩ := Prod.mk.inj (Except.ok.inj h)
    exact Nat.le_refl line
  | case8 => exact absurd h (by simp)

theorem line_le_readString (start : Nat) (cs : List Char) (line : Nat) (taken : List Char) :
    line ≤ (readString start cs line taken).line := by
  fun_induction readString start cs line taken with
  | case1 line | case2 rest line | case3 line => exact Nat.le_refl line
  | case4 _ _ _ _ _ _ ih => exact ih
  | case5 c rest line => exact line_le_lineAfter c line
  | case6 c rest line _ _ _ _ ih => exact Nat.le_trans (line_le_lineAfter c line) ih

theorem line_le_readItem (c : Char) (rest : List Char) (line : Nat) :
    line ≤ (readItem c rest line).line := by
  unfold readItem
  split
  · exact Nat.le_refl line
  · split_ifs
    · exact line_le_readString ..
    all_goals exact Nat.le_refl line

theorem line_of_readString {start : Nat} {cs : List Char} {line : Nat} {taken : List Char}
    {lexeme : Lexeme} (h : (readString start cs line taken).item = .ok lexeme) :
    lexeme.line = start := by
  fun_induction readString start cs line taken with
  | case1 | case3 | case5 => exact absurd h (by simp)
  | case2 => exact congrArg Lexeme.line (Except.ok.inj h).symm
  | case4 _ _ _ _ _ _ ih => exact ih h
  | case6 _ _ _ _ _ _ _ ih => exact ih h

/-- A token is on the line on which its first character is. -/
theorem line_of_readItem {c : Char} {rest : List Char} {line : Nat} {lexeme : Lexeme}
    (h : (readItem c rest line).item = .ok lexeme) : lexeme.line = line := by
  unfold readItem at h
  split at h
  · exact congrArg Lexeme.line (Except.ok.inj h).symm
  · split_ifs at h
    · exact line_of_readString h
    · dsimp only at h
      split at h
      · exact congrArg Lexeme.line (Except.ok.inj h).symm
      · exact absurd h (by simp)
    · exact congrArg Lexeme.line (Except.ok.inj h).symm

/-- The tokens of a text are not before its first line. -/
theorem line_le_of_mem_itemsFrom {cs : List Char} {line : Nat} {taken : List Item} {lexeme : Lexeme}
    (h : .ok lexeme ∈ itemsFrom cs line taken) : .ok lexeme ∈ taken ∨ line ≤ lexeme.line := by
  fun_induction itemsFrom cs line taken with
  | case1 cs line taken e hskipped => exact .inl (by simpa using h)
  | case2 cs line taken behind hskipped =>
    rcases List.mem_cons.mp (List.mem_reverse.mp h) with heof | htaken
    · rw [Except.ok.inj heof]
      exact .inr (line_le_of_skipTrivia hskipped)
    · exact .inl htaken
  | case3 cs line taken c rest behind hskipped read ih =>
    have hbehind := line_le_of_skipTrivia hskipped
    rcases ih h with hmem | hle
    · rcases List.mem_cons.mp hmem with hitem | htaken
      · rw [line_of_readItem hitem.symm]
        exact .inr hbehind
      · exact .inl htaken
    · exact .inr (Nat.le_trans hbehind (Nat.le_trans (line_le_readItem c rest behind) hle))

namespace Grammar

theorem Function.isWritten {lexemes : List Lexeme} {routine : Routine}
    (h : Function lexemes routine) (hlines : ∀ lexeme ∈ lexemes, 0 < lexeme.line) :
    routine.IsWritten := by
  cases h with
  | normal line h | inlined line _ h =>
    cases h
    exact ⟨hlines (word _ line) List.mem_cons_self, rfl, rfl⟩

theorem Whole.isWritten {lexemes : List Lexeme} {script : Declarations} (h : Whole lexemes script)
    (hlines : ∀ lexeme ∈ lexemes, 0 < lexeme.line) :
    ∀ routine ∈ script.routines, routine.IsWritten := by
  induction h with
  | eof => exact fun routine hroutine => absurd hroutine List.not_mem_nil
  | const line _ _ ih =>
    exact ih fun lexeme hlexeme => hlines lexeme (by simp [hlexeme])
  | routine h _ ih =>
    intro other hother
    rcases List.mem_cons.mp hother with rfl | hother
    · exact h.isWritten fun lexeme hlexeme => hlines lexeme (List.mem_append_left _ hlexeme)
    · exact ih (fun lexeme hlexeme => hlines lexeme (List.mem_append_right _ hlexeme)) other hother

end Grammar

/-- Reading a script gives each function its line and nothing that comes later. -/
theorem isWritten_of_parse {source : String} {script : Declarations}
    (h : parse source = .ok script) :
    ∀ routine ∈ script.routines, routine.IsWritten := by
  obtain ⟨lexemes, hitems, hwhole⟩ := exists_whole_of_parse h
  apply hwhole.isWritten
  intro lexeme hlexeme
  have hitem : .ok lexeme ∈ items source := by
    rw [hitems]
    exact List.mem_map_of_mem hlexeme
  exact (line_le_of_mem_itemsFrom hitem).resolve_left List.not_mem_nil

end RoomForge.Script

namespace RoomForge.Room

open RoomForge.Code RoomForge.Script

/-! ## Roles -/

theorem Object.verbName_ne {object : Object} {name : String} (h : name.toList.getLast? ≠ some 'b') :
    object.verbName ≠ name := by
  rintro rfl
  apply h
  rw [verbName, String.toList_append, List.getLast?_append]
  rfl

theorem Object.verbName_inj {first second : Object} (h : first.verbName = second.verbName) :
    first.name = second.name := by
  have hlist := congrArg String.toList h
  rw [verbName, verbName, String.toList_append, String.toList_append] at hlist
  exact String.toList_inj.mp (List.append_cancel_right hlist)

/-- Roles depend on nothing of objects but the names of their verbs. -/
theorem Role.ofName_congr {first second : List Object}
    (h : first.map Object.verbName = second.map Object.verbName) (name : String) :
    Role.ofName name first = Role.ofName name second := by
  have hfind : ∀ objects : List Object, objects.findIdx? (fun object => object.verbName == name) =
      (objects.map Object.verbName).findIdx? (· == name) := by
    intro objects
    rw [List.findIdx?_map]
    rfl
  rw [Role.ofName, Role.ofName, hfind, hfind, h]

namespace Role

variable {name : String} {objects : List Object}

theorem ofName_eq_entry_iff : ofName name objects = .entry ↔ name = "entry" := by
  unfold ofName
  split_ifs with hentry hexit
  · simp [hentry]
  · simp [hentry]
  · split <;> simp [hentry]

theorem ofName_eq_exit_iff : ofName name objects = .exit ↔ name = "exit" := by
  unfold ofName
  split_ifs with hentry hexit
  · simp [hentry]
  · simp [hexit]
  · split <;> simp [hexit]

/-- A name gives a role of its own to what bears it if it is `entry`, `exit` or one of a verb. -/
theorem ofName_eq_free_iff : ofName name objects = .free ↔
    name ≠ "entry" ∧ name ≠ "exit" ∧ ∀ object ∈ objects, object.verbName ≠ name := by
  unfold ofName
  split_ifs with hentry hexit
  · simp [hentry]
  · simp [hexit]
  · split
    · next index hindex =>
      obtain ⟨hlt, hname, -⟩ := List.findIdx?_eq_some_iff_getElem.mp hindex
      simp only [reduceCtorEq, false_iff, not_and]
      intro _ _ hother
      exact hother objects[index] (List.getElem_mem hlt) (by simpa using hname)
    · next hnone => simpa [hentry, hexit] using hnone

/-- Where no two verbs have the same name, a verb belongs to the object that it is named after. -/
theorem ofName_eq_verb_iff (hdistinct : (objects.map Object.verbName).Nodup) {index : Nat} :
    ofName name objects = .verb index ↔
      ∃ object, objects[index]? = some object ∧ object.verbName = name := by
  constructor
  · intro h
    unfold ofName at h
    split_ifs at h
    split at h
    · next found hfound =>
      obtain rfl := Role.verb.inj h
      obtain ⟨hlt, hname, -⟩ := List.findIdx?_eq_some_iff_getElem.mp hfound
      exact ⟨objects[found], List.getElem?_eq_getElem hlt, by simpa using hname⟩
    · exact absurd h (by simp)
  · rintro ⟨object, hobject, rfl⟩
    obtain ⟨hlt, rfl⟩ := List.getElem?_eq_some_iff.mp hobject
    have hfound : objects.findIdx? (fun object => object.verbName == objects[index].verbName) =
        some index := by
      refine List.findIdx?_eq_some_iff_getElem.mpr ⟨hlt, by simp, ?_⟩
      intro before hbefore hsame
      have hne := List.pairwise_iff_getElem.mp hdistinct before index
        (by simpa using Nat.lt_trans hbefore hlt) (by simpa using hlt) hbefore
      exact hne (by simpa using hsame)
    rw [ofName, if_neg (Object.verbName_ne (by decide)), if_neg (Object.verbName_ne (by decide)),
      hfound]

end Role

/-! ## Functions and their places -/

/-- The function called `name`. -/
def named? (declared : List Routine) (name : String) : Option Routine :=
  declared.find? fun routine => routine.name == name

/-- The functions without a role of their own. -/
def freeOf (objects : List Object) (declared : List Routine) : List Routine :=
  declared.filter fun routine => Role.ofName routine.name objects = .free

/-- Numbers functions from `next` on, all but the inlined ones. -/
def numberFrom (next : UInt16) : List Routine → List Routine
  | [] => []
  | routine :: rest =>
    if routine.isInlined then routine :: numberFrom next rest
    else { routine with number := some next } :: numberFrom (next + 1) rest

/-- How many of these functions get numbers. -/
def numberedCount (routines : List Routine) : Nat :=
  routines.countP fun routine => !routine.isInlined

/-- The number behind those that functions get from `next` on. -/
def numberBehind (next : UInt16) (routines : List Routine) : UInt16 :=
  next + UInt16.ofNat (numberedCount routines)

/-- An object with the verb that is named after it, if there is one. -/
def bindVerb (declared : List Routine) (object : Object) : Object :=
  { object with verb := (named? declared object.verbName).or object.verb }

/-- How many functions of a room can have numbers. The number behind theirs has to be a word too. -/
def numberCapacity : Nat := lastWord.toNat - firstNumber.toNat

/-- Functions that a room with these objects takes: their names differ, none with a role of its own
is inlined, and there are numbers for all that get one. -/
structure Admissible (objects : List Object) (declared : List Routine) : Prop where
  distinct : (declared.map Routine.name).Nodup
  reserved : ∀ routine ∈ declared, Role.ofName routine.name objects ≠ .free →
    routine.isInlined = false
  countable : numberedCount (freeOf objects declared) ≤ numberCapacity

theorem named?_eq_none_iff {declared : List Routine} {name : String} :
    named? declared name = none ↔ name ∉ declared.map Routine.name := by
  simp [named?]

theorem named?_eq_some_iff {declared : List Routine} (hdistinct : (declared.map Routine.name).Nodup)
    {name : String} {routine : Routine} :
    named? declared name = some routine ↔ routine ∈ declared ∧ routine.name = name :=
  find?_eq_some_iff_of_nodup hdistinct

theorem named?_append_new {declared : List Routine} {routine : Routine}
    (hnew : routine.name ∉ declared.map Routine.name) :
    named? (declared ++ [routine]) routine.name = some routine := by
  have hnone : named? declared routine.name = none := named?_eq_none_iff.mpr hnew
  rw [named?, List.find?_append, ← named?, hnone]
  simp

theorem named?_append_of_ne {declared : List Routine} {routine : Routine} {name : String}
    (hne : routine.name ≠ name) : named? (declared ++ [routine]) name = named? declared name := by
  simp [named?, List.find?_append, hne]

theorem freeOf_congr {first second : List Object}
    (h : first.map Object.verbName = second.map Object.verbName) (declared : List Routine) :
    freeOf first declared = freeOf second declared := by
  simp only [freeOf, Role.ofName_congr h]

theorem bindVerb_append_of_ne {declared : List Routine} {routine : Routine} {object : Object}
    (hne : object.verbName ≠ routine.name) :
    bindVerb (declared ++ [routine]) object = bindVerb declared object := by
  rw [bindVerb, named?_append_of_ne hne.symm, bindVerb]

theorem freeOf_append_singleton (objects : List Object) (declared : List Routine)
    (routine : Routine) :
    freeOf objects (declared ++ [routine]) = freeOf objects declared ++
      if Role.ofName routine.name objects = .free then [routine] else [] := by
  rw [freeOf, List.filter_append, List.filter_singleton]
  simp [freeOf]

theorem numberBehind_cons (next : UInt16) (routine : Routine) (rest : List Routine) :
    numberBehind next (routine :: rest) =
      numberBehind (if routine.isInlined then next else next + 1) rest := by
  cases hinlined : routine.isInlined with
  | true => simp [numberBehind, numberedCount, hinlined]
  | false =>
    simp only [numberBehind, numberedCount, List.countP_cons, hinlined, Bool.not_false, if_true,
      UInt16.ofNat_add, UInt16.add_assoc, Bool.false_eq_true, if_false]
    rw [UInt16.add_comm (UInt16.ofNat _)]
    rfl

theorem numberFrom_append (next : UInt16) (first second : List Routine) :
    numberFrom next (first ++ second) =
      numberFrom next first ++ numberFrom (numberBehind next first) second := by
  induction first generalizing next with
  | nil => simp [numberFrom, numberBehind, numberedCount]
  | cons routine rest ih =>
    rw [numberBehind_cons]
    cases hinlined : routine.isInlined <;> simp [numberFrom, hinlined, ih]

/-- Numbering functions changes nothing of them but their numbers. -/
theorem map_numberFrom {γ : Type} {view : Routine → γ}
    (hview : ∀ routine number, view { routine with number } = view routine) (next : UInt16)
    (routines : List Routine) : (numberFrom next routines).map view = routines.map view := by
  induction routines generalizing next with
  | nil => rfl
  | cons routine rest ih =>
    unfold numberFrom
    split
    · simp [ih]
    · simp [ih, hview]

/-- What numbering makes of a function. -/
theorem exists_of_mem_numberFrom {next : UInt16} {routines : List Routine} {routine : Routine}
    (h : routine ∈ numberFrom next routines) :
    ∃ declared ∈ routines, if declared.isInlined then routine = declared
      else ∃ number, routine = { declared with number := some number } := by
  induction routines generalizing next with
  | nil => exact absurd h List.not_mem_nil
  | cons first rest ih =>
    have hrest : ∀ other, routine ∈ numberFrom other rest → ∃ declared ∈ first :: rest,
        if declared.isInlined then routine = declared
        else ∃ number, routine = { declared with number := some number } := by
      intro other hother
      obtain ⟨declared, hdeclared, hroutine⟩ := ih hother
      exact ⟨declared, List.mem_cons_of_mem first hdeclared, hroutine⟩
    unfold numberFrom at h
    split at h
    · next hinlined =>
      rcases List.mem_cons.mp h with rfl | hmem
      · exact ⟨routine, List.mem_cons_self, by rw [if_pos hinlined]⟩
      · exact hrest next hmem
    · next hnormal =>
      rcases List.mem_cons.mp h with rfl | hmem
      · exact ⟨first, List.mem_cons_self, by rw [if_neg hnormal]; exact ⟨next, rfl⟩⟩
      · exact hrest (next + 1) hmem

theorem numberBehind_append (next : UInt16) (first second : List Routine) :
    numberBehind next (first ++ second) = numberBehind (numberBehind next first) second := by
  simp [numberBehind, numberedCount, List.countP_append, UInt16.add_assoc]

/-- The counter stands on the last word when all numbers have been given. -/
theorem numberBehind_eq_lastWord_iff {routines : List Routine}
    (h : numberedCount routines ≤ numberCapacity) :
    numberBehind firstNumber routines = lastWord ↔ numberedCount routines = numberCapacity := by
  have hfirst : firstNumber.toNat = 200 := rfl
  have hlast : lastWord.toNat = 65535 := rfl
  have hcapacity : numberCapacity = 65335 := rfl
  rw [hcapacity] at h ⊢
  rw [← UInt16.toNat_inj, numberBehind, UInt16.toNat_add, UInt16.toNat_ofNat', hfirst, hlast]
  omega

theorem numberedCount_freeOf_append (objects : List Object) (first second : List Routine) :
    numberedCount (freeOf objects (first ++ second)) =
      numberedCount (freeOf objects first) + numberedCount (freeOf objects second) := by
  simp [numberedCount, freeOf, List.filter_append, List.countP_append]

theorem Admissible.of_append {objects : List Object} {first second : List Routine}
    (h : Admissible objects (first ++ second)) : Admissible objects first := by
  refine ⟨nodup_map_of_append h.distinct, fun routine hroutine =>
    h.reserved routine (List.mem_append_left _ hroutine), ?_⟩
  have hcount := h.countable
  rw [numberedCount_freeOf_append] at hcount
  omega

theorem Admissible.congr {first second : List Object} {declared : List Routine}
    (h : Admissible first declared)
    (hverbs : first.map Object.verbName = second.map Object.verbName) :
    Admissible second declared := by
  refine ⟨h.distinct, ?_, freeOf_congr hverbs declared ▸ h.countable⟩
  intro routine hroutine
  rw [← Role.ofName_congr hverbs]
  exact h.reserved routine hroutine

/-- A function counts if it has no role of its own and is not inlined. -/
theorem numberedCount_freeOf_singleton (objects : List Object) (routine : Routine) :
    numberedCount (freeOf objects [routine]) =
      if Role.ofName routine.name objects = .free ∧ routine.isInlined = false then 1 else 0 := by
  by_cases hrole : Role.ofName routine.name objects = .free
  · cases hinlined : routine.isInlined <;> simp [numberedCount, freeOf, hrole, hinlined]
  · simp [numberedCount, freeOf, hrole]

theorem admissible_append_singleton_iff {objects : List Object} {declared : List Routine}
    {routine : Routine} :
    Admissible objects (declared ++ [routine]) ↔ Admissible objects declared ∧
      routine.name ∉ declared.map Routine.name ∧
      (Role.ofName routine.name objects ≠ .free → routine.isInlined = false) ∧
      (Role.ofName routine.name objects = .free → routine.isInlined = false →
        numberedCount (freeOf objects declared) ≠ numberCapacity) := by
  constructor
  · intro h
    obtain ⟨-, hnew⟩ := nodup_map_append_singleton_iff.mp h.distinct
    refine ⟨h.of_append, hnew, h.reserved routine (by simp), fun hrole hnormal => ?_⟩
    have hcount := h.countable
    rw [numberedCount_freeOf_append, numberedCount_freeOf_singleton,
      if_pos ⟨hrole, hnormal⟩] at hcount
    omega
  · rintro ⟨h, hnew, hreserved, hnumber⟩
    refine ⟨nodup_map_append_singleton_iff.mpr ⟨h.distinct, hnew⟩, ?_, ?_⟩
    · intro other hother
      rcases List.mem_append.mp hother with hother | hother
      · exact h.reserved other hother
      · rwa [List.mem_singleton.mp hother]
    · have hcount := h.countable
      rw [numberedCount_freeOf_append, numberedCount_freeOf_singleton]
      split
      · next hcounts =>
        have hfree := hnumber hcounts.1 hcounts.2
        omega
      · omega

/-! ## Reading functions one after the other -/

namespace Bindings

/-- What the scripts read so far give a room, in terms of their constants and functions. -/
structure Binds (objects : List Object) (constants : List Constant) (declared : List Routine)
    (bindings : Bindings) : Prop where
  constants_eq : bindings.constants.toList = constants
  objects_eq : bindings.objects = objects.map (bindVerb declared)
  entry_eq : bindings.entry = named? declared "entry"
  exit_eq : bindings.exit = named? declared "exit"
  routines_eq : bindings.routines.toList = numberFrom firstNumber (freeOf objects declared)
  next_eq : bindings.next = numberBehind firstNumber (freeOf objects declared)
  mem_names : ∀ name, name ∈ bindings.names ↔ name ∈ declared.map Routine.name

/-- The bindings with a function in the place of its role. -/
def place (bindings : Bindings) (routine : Routine) (role : Role) : Bindings :=
  let bindings := { bindings with names := bindings.names.insert routine.name }
  match role with
  | .entry => { bindings with entry := some routine }
  | .exit => { bindings with exit := some routine }
  | .verb index => { bindings with
      objects := bindings.objects.modify index fun object => { object with verb := some routine } }
  | .free => { bindings with
      routines := bindings.routines ++ (numberFrom bindings.next [routine]).toArray
      next := numberBehind bindings.next [routine] }

/-- A function is added unless it would use up the last word. -/
theorem addFree_eq_ok_iff {bindings next : Bindings} {routine : Routine} :
    bindings.addFree routine = .ok next ↔
      (routine.isInlined = false → bindings.next ≠ lastWord) ∧
      next = { bindings with
        routines := bindings.routines ++ (numberFrom bindings.next [routine]).toArray
        next := numberBehind bindings.next [routine] } := by
  unfold addFree
  cases hinlined : routine.isInlined with
  | true => simp [numberFrom, numberBehind, numberedCount, hinlined, eq_comm]
  | false =>
    by_cases hlast : bindings.next = lastWord
    · simp [hlast]
    · simp [hlast, numberFrom, numberBehind, numberedCount, hinlined, eq_comm]

/-- A function is taken if its name is new and, unless it has no role, it is not inlined; if it has
none and is not inlined, there has to be a number for it. -/
theorem addRoutine_eq_ok_iff {bindings next : Bindings} {routine : Routine} :
    (bindings.addRoutine routine).result = .ok next ↔ routine.name ∉ bindings.names ∧
      (Role.ofName routine.name bindings.objects ≠ .free → routine.isInlined = false) ∧
      (Role.ofName routine.name bindings.objects = .free → routine.isInlined = false →
        bindings.next ≠ lastWord) ∧
      next = bindings.place routine (Role.ofName routine.name bindings.objects) := by
  unfold addRoutine
  by_cases hname : routine.name ∈ bindings.names
  · simp [Report.fail, hname, Std.TreeSet.contains_iff_mem.mpr hname]
  · have hcontains : bindings.names.contains routine.name = false := by
      simpa [← Std.TreeSet.contains_iff_mem] using hname
    simp only [hcontains, Bool.false_eq_true, if_false, classify]
    by_cases hreserved : Role.ofName routine.name bindings.objects ≠ .free ∧ routine.isInlined
    · simp [hreserved, Report.fail]
    · have hnormal : Role.ofName routine.name bindings.objects ≠ .free →
          routine.isInlined = false := by
        simpa using hreserved
      simp only [if_neg hreserved, hname, not_false_eq_true, true_and, iff_true_intro hnormal]
      cases Role.ofName routine.name bindings.objects with
      | free => simp [place, addFree_eq_ok_iff]
      | _ => simp [place, ok_bind, eq_comm (a := next)]

section

variable {objects : List Object} {constants : List Constant} {declared : List Routine}
  {bindings : Bindings}

theorem binds_start (objects : List Object) : Binds objects [] [] { objects } where
  constants_eq := rfl
  objects_eq := (List.map_id' objects).symm
  entry_eq := rfl
  exit_eq := rfl
  routines_eq := rfl
  next_eq := by simp [freeOf, numberBehind, numberedCount]
  mem_names := by simp

theorem Binds.verbs (h : bindings.Binds objects constants declared) :
    bindings.objects.map Object.verbName = objects.map Object.verbName := by
  rw [h.objects_eq, List.map_map]
  rfl

/-- Binding a verb changes the object that it is named after and no other. -/
theorem map_bindVerb_append (hdistinct : (objects.map Object.verbName).Nodup) {routine : Routine}
    (hnew : routine.name ∉ declared.map Routine.name) {index : Nat}
    (hrole : Role.ofName routine.name objects = .verb index) :
    objects.map (bindVerb (declared ++ [routine])) =
      (objects.map (bindVerb declared)).modify index fun object =>
        { object with verb := some routine } := by
  obtain ⟨owner, howner, hname⟩ := (Role.ofName_eq_verb_iff hdistinct).mp hrole
  apply List.ext_getElem?
  intro place
  rw [List.getElem?_modify, List.getElem?_map, List.getElem?_map]
  by_cases hplace : index = place
  · subst hplace
    rw [howner]
    simp [bindVerb, hname, named?_append_new hnew]
  · simp only [hplace, if_false, Option.map_eq_map, Option.map_id']
    apply Option.map_congr
    intro object hobject
    apply bindVerb_append_of_ne
    intro hsame
    have hother := (Role.ofName_eq_verb_iff hdistinct).mpr ⟨object, hobject, hsame⟩
    exact hplace (Role.verb.inj (hrole.symm.trans hother))

/-- A function that is no verb changes no object. -/
theorem map_bindVerb_append_of_ne {routine : Routine}
    (hrole : ∀ index, Role.ofName routine.name objects ≠ .verb index)
    (hdistinct : (objects.map Object.verbName).Nodup) :
    objects.map (bindVerb (declared ++ [routine])) = objects.map (bindVerb declared) := by
  apply List.map_congr_left
  intro object hobject
  apply bindVerb_append_of_ne
  intro hname
  obtain ⟨index, hindex⟩ := List.mem_iff_getElem?.mp hobject
  exact hrole index ((Role.ofName_eq_verb_iff hdistinct).mpr ⟨object, hindex, hname⟩)

theorem Binds.place (h : bindings.Binds objects constants declared)
    (hdistinct : (objects.map Object.verbName).Nodup) {routine : Routine}
    (hnew : routine.name ∉ declared.map Routine.name) :
    (bindings.place routine (Role.ofName routine.name objects)).Binds objects constants
      (declared ++ [routine]) := by
  have hnames : ∀ name, name ∈ bindings.names.insert routine.name ↔
      name ∈ (declared ++ [routine]).map Routine.name := by
    intro name
    rw [Std.TreeSet.mem_insert, h.mem_names, Std.compare_eq_iff_eq]
    simp [or_comm, eq_comm]
  have hentry : Role.ofName routine.name objects ≠ .entry →
      bindings.entry = named? (declared ++ [routine]) "entry" := by
    intro hrole
    rw [named?_append_of_ne (mt Role.ofName_eq_entry_iff.mpr hrole), h.entry_eq]
  have hexit : Role.ofName routine.name objects ≠ .exit →
      bindings.exit = named? (declared ++ [routine]) "exit" := by
    intro hrole
    rw [named?_append_of_ne (mt Role.ofName_eq_exit_iff.mpr hrole), h.exit_eq]
  have hobjects : (∀ index, Role.ofName routine.name objects ≠ .verb index) →
      bindings.objects = objects.map (bindVerb (declared ++ [routine])) := by
    intro hrole
    rw [map_bindVerb_append_of_ne hrole hdistinct, h.objects_eq]
  have hfree : Role.ofName routine.name objects ≠ .free →
      freeOf objects declared = freeOf objects (declared ++ [routine]) := by
    intro hrole
    rw [freeOf_append_singleton, if_neg hrole, List.append_nil]
  cases hrole : Role.ofName routine.name objects with
  | entry =>
    rw [hrole] at hexit hobjects hfree
    refine ⟨h.constants_eq, hobjects (by simp), ?_, hexit (by simp),
      hfree (by simp) ▸ h.routines_eq, hfree (by simp) ▸ h.next_eq, hnames⟩
    rw [← Role.ofName_eq_entry_iff.mp hrole, named?_append_new hnew]
    rfl
  | exit =>
    rw [hrole] at hentry hobjects hfree
    refine ⟨h.constants_eq, hobjects (by simp), hentry (by simp), ?_,
      hfree (by simp) ▸ h.routines_eq, hfree (by simp) ▸ h.next_eq, hnames⟩
    rw [← Role.ofName_eq_exit_iff.mp hrole, named?_append_new hnew]
    rfl
  | verb index =>
    rw [hrole] at hentry hexit hfree
    refine ⟨h.constants_eq, ?_, hentry (by simp), hexit (by simp), hfree (by simp) ▸ h.routines_eq,
      hfree (by simp) ▸ h.next_eq, hnames⟩
    rw [map_bindVerb_append hdistinct hnew hrole, ← h.objects_eq]
    rfl
  | free =>
    rw [hrole] at hentry hexit hobjects
    rw [Bindings.place]
    refine ⟨h.constants_eq, hobjects (by simp), hentry (by simp), hexit (by simp), ?_, ?_, hnames⟩
    · rw [freeOf_append_singleton, if_pos hrole, numberFrom_append, ← h.routines_eq, ← h.next_eq]
      exact Array.toList_append
    · rw [freeOf_append_singleton, if_pos hrole, numberBehind_append, ← h.next_eq]

/-- A function more is taken if the functions are still admissible with it. -/
theorem Binds.addRoutine_eq_ok_iff (h : bindings.Binds objects constants declared)
    (hadmissible : Admissible objects declared) {routine : Routine} {next : Bindings} :
    (bindings.addRoutine routine).result = .ok next ↔ Admissible objects (declared ++ [routine]) ∧
      next = bindings.place routine (Role.ofName routine.name objects) := by
  rw [Bindings.addRoutine_eq_ok_iff, h.mem_names, Role.ofName_congr h.verbs,
    admissible_append_singleton_iff, h.next_eq, ne_eq (numberBehind ..),
    numberBehind_eq_lastWord_iff hadmissible.countable]
  simp only [hadmissible, true_and, and_assoc, ne_eq]

/-- When all numbers have been given, a function that would get one ends the run. -/
theorem Binds.addRoutine_of_full (h : bindings.Binds objects constants declared)
    (hfull : numberedCount (freeOf objects declared) = numberCapacity) {routine : Routine}
    (hnew : routine.name ∉ declared.map Routine.name)
    (hrole : Role.ofName routine.name objects = .free) (hnormal : routine.isInlined = false) :
    (bindings.addRoutine routine).result = .error (.outOfNumbers routine.name) := by
  have hcontains : bindings.names.contains routine.name = false := by
    rw [← h.mem_names] at hnew
    simpa [← Std.TreeSet.contains_iff_mem] using hnew
  have hlast : bindings.next = lastWord := by
    rw [h.next_eq, numberBehind_eq_lastWord_iff (Nat.le_of_eq hfull), hfull]
  rw [← Role.ofName_congr h.verbs] at hrole
  simp [addRoutine, hcontains, classify, hrole, addFree, hnormal, hlast]

theorem Binds.fold_addRoutine (hdistinct : (objects.map Object.verbName).Nodup)
    {more : List Routine} (h : bindings.Binds objects constants declared)
    (hadmissible : Admissible objects declared) {after : Bindings}
    (hafter : (Report.fold addRoutine bindings more).result = .ok after) :
    Admissible objects (declared ++ more) ∧ after.Binds objects constants (declared ++ more) := by
  rw [Report.result_fold] at hafter
  induction more generalizing bindings declared with
  | nil =>
    obtain rfl := Except.ok.inj hafter
    simpa using ⟨hadmissible, h⟩
  | cons routine rest ih =>
    rw [List.foldlM_cons] at hafter
    obtain ⟨next, hnext, hrest⟩ := bind_eq_ok_iff.mp hafter
    obtain ⟨hmore, rfl⟩ := (h.addRoutine_eq_ok_iff hadmissible).mp hnext
    have hplaced := h.place hdistinct (admissible_append_singleton_iff.mp hmore).2.1
    simpa using ih hplaced hmore hrest

theorem Binds.exists_fold_addRoutine (hdistinct : (objects.map Object.verbName).Nodup)
    {more : List Routine} (h : bindings.Binds objects constants declared)
    (hadmissible : Admissible objects declared)
    (hmore : Admissible objects (declared ++ more)) :
    ∃ after, (Report.fold addRoutine bindings more).result = .ok after := by
  rw [Report.result_fold]
  induction more generalizing bindings declared with
  | nil => exact ⟨bindings, rfl⟩
  | cons routine rest ih =>
    have hfirst : Admissible objects (declared ++ [routine]) := by
      rw [← List.singleton_append, ← List.append_assoc] at hmore
      exact hmore.of_append
    have hnext := (h.addRoutine_eq_ok_iff hadmissible).mpr ⟨hfirst, rfl⟩
    have hplaced := h.place hdistinct (admissible_append_singleton_iff.mp hfirst).2.1
    rw [List.foldlM_cons, hnext]
    exact ih hplaced hfirst (by simpa using hmore)

/-- The function behind the last number ends the run, whatever stands behind it. -/
theorem Binds.fold_addRoutine_of_full (hdistinct : (objects.map Object.verbName).Nodup)
    (h : bindings.Binds objects constants declared) (hadmissible : Admissible objects declared)
    {before behind : List Routine} {routine : Routine}
    (hbefore : Admissible objects (declared ++ before))
    (hfull : numberedCount (freeOf objects (declared ++ before)) = numberCapacity)
    (hnew : routine.name ∉ (declared ++ before).map Routine.name)
    (hrole : Role.ofName routine.name objects = .free) (hnormal : routine.isInlined = false) :
    (Report.fold addRoutine bindings (before ++ routine :: behind)).result =
      .error (.outOfNumbers routine.name) := by
  obtain ⟨full, hfold⟩ := h.exists_fold_addRoutine hdistinct hadmissible hbefore
  have hbinds := (h.fold_addRoutine hdistinct hadmissible hfold).2
  rw [Report.result_fold] at hfold ⊢
  rw [List.foldlM_append, hfold, ok_bind, List.foldlM_cons,
    hbinds.addRoutine_of_full hfull hnew hrole hnormal]
  rfl

/-! ## Reading scripts one after the other -/

theorem result_addScript {source : ScriptSource} {script : Declarations}
    (h : parse source.text = .ok script) :
    (bindings.addScript source).result = (Report.fold addRoutine
      { bindings with constants := bindings.constants ++ script.constants.toArray }
      script.routines).result := by
  simp only [addScript, Report.result_bind, Report.result_say, ok_bind, h]

theorem addScript_eq_ok_iff {source : ScriptSource} {after : Bindings} :
    (bindings.addScript source).result = .ok after ↔ ∃ script, parse source.text = .ok script ∧
      (Report.fold addRoutine
        { bindings with constants := bindings.constants ++ script.constants.toArray }
        script.routines).result = .ok after := by
  cases hparse : parse source.text with
  | error e => simp [addScript, Report.fail, ok_bind, hparse]
  | ok script => simp [result_addScript hparse]

theorem Binds.addConstants (h : bindings.Binds objects constants declared) (more : List Constant) :
    Binds objects (constants ++ more) declared
      { bindings with constants := bindings.constants ++ more.toArray } := by
  refine ⟨?_, h.objects_eq, h.entry_eq, h.exit_eq, h.routines_eq, h.next_eq, h.mem_names⟩
  simp [h.constants_eq]

/-- The scripts that have been read are those of the texts, and the bindings hold what they do. -/
theorem Binds.fold_addScript (hdistinct : (objects.map Object.verbName).Nodup)
    {sources : List ScriptSource} (h : bindings.Binds objects constants declared)
    (hadmissible : Admissible objects declared) {after : Bindings}
    (hafter : (Report.fold addScript bindings sources).result = .ok after) :
    ∃ scripts, List.Forall₂ (fun source script => parse source.text = .ok script) sources scripts ∧
      Admissible objects (declared ++ scripts.flatMap (·.routines)) ∧
      after.Binds objects (constants ++ scripts.flatMap (·.constants))
        (declared ++ scripts.flatMap (·.routines)) := by
  rw [Report.result_fold] at hafter
  induction sources generalizing bindings constants declared with
  | nil =>
    obtain rfl := Except.ok.inj hafter
    exact ⟨[], .nil, by simpa using ⟨hadmissible, h⟩⟩
  | cons source rest ih =>
    rw [List.foldlM_cons] at hafter
    obtain ⟨next, hnext, hrest⟩ := bind_eq_ok_iff.mp hafter
    obtain ⟨script, hparse, hfold⟩ := addScript_eq_ok_iff.mp hnext
    obtain ⟨hmore, hbinds⟩ :=
      (h.addConstants script.constants).fold_addRoutine hdistinct hadmissible hfold
    obtain ⟨scripts, hscripts, hwhole⟩ := ih hbinds hmore hrest
    exact ⟨script :: scripts, .cons hparse hscripts, by simpa using hwhole⟩

theorem Binds.exists_fold_addScript (hdistinct : (objects.map Object.verbName).Nodup)
    {sources : List ScriptSource} {scripts : List Declarations}
    (h : bindings.Binds objects constants declared) (hadmissible : Admissible objects declared)
    (hscripts : List.Forall₂ (fun source script => parse source.text = .ok script) sources scripts)
    (hmore : Admissible objects (declared ++ scripts.flatMap (·.routines))) :
    ∃ after, (Report.fold addScript bindings sources).result = .ok after := by
  rw [Report.result_fold]
  induction hscripts generalizing bindings constants declared with
  | nil => exact ⟨bindings, rfl⟩
  | @cons source script _ _ hparse _ ih =>
    rw [List.flatMap_cons, ← List.append_assoc] at hmore
    have hconstants := h.addConstants script.constants
    obtain ⟨next, hfold⟩ := hconstants.exists_fold_addRoutine hdistinct hadmissible hmore.of_append
    have hbinds := (hconstants.fold_addRoutine hdistinct hadmissible hfold).2
    have hnext : (bindings.addScript source).result = .ok next :=
      addScript_eq_ok_iff.mpr ⟨script, hparse, hfold⟩
    rw [List.foldlM_cons, hnext]
    exact ih hbinds hmore.of_append hmore

end

end Bindings

/-! ## The scripts of a room -/

/-- The verb of an object: the function named after it, the verb it came with, or an empty one. -/
def verbOf (declared : List Routine) (object : Object) : Routine :=
  ((named? declared object.verbName).or object.verb).getD (.stub object.verbName)

/-- What a room is warned about when no function is called `name`. -/
def missing (declared : List Routine) (name : String) : List Warning :=
  if (named? declared name).isNone then [.missingFunction name] else []

/-- What a room with these objects has of its scripts. -/
def Bound.ofScripts (objects : List Object) (scripts : List Declarations) : Bound :=
  let declared := scripts.flatMap (·.routines)
  { constants := scripts.flatMap (·.constants)
    entry := (named? declared "entry").getD (.stub "entry")
    exit := (named? declared "exit").getD (.stub "exit")
    routines := numberFrom firstNumber (freeOf objects declared)
    objects := objects.map fun object => { object with verb := some (verbOf declared object) }
    warnings := (if scripts.isEmpty then [.missingResource "scripts"] else []) ++
      missing declared "entry" ++ missing declared "exit" }

theorem result_orStub (room name : String) (routine : Option Routine) :
    (orStub room name routine).result = .ok (routine.getD (.stub name),
      if routine.isNone then [.missingFunction name] else []) := by
  cases routine <;> rfl

theorem result_completeVerb (object : Object) :
    (completeVerb object).result =
      .ok { object with verb := some (object.verb.getD (.stub object.verbName)) } := by
  obtain ⟨id, name, x, y, images, verb⟩ := object
  cases verb <;> rfl

theorem result_each_completeVerb (objects : List Object) :
    (Report.each completeVerb objects).result = .ok (objects.map fun object =>
      { object with verb := some (object.verb.getD (.stub object.verbName)) }) := by
  rw [Report.result_each_eq_ok_iff, List.forall₂_map_right_iff, List.forall₂_same]
  intro object _
  exact result_completeVerb object

/-- What a room has of the scripts that its bindings were made from. -/
def Bound.ofBindings (sources : List ScriptSource) (bindings : Bindings) : Bound where
  constants := bindings.constants.toList
  entry := bindings.entry.getD (.stub "entry")
  exit := bindings.exit.getD (.stub "exit")
  routines := bindings.routines.toList
  objects := bindings.objects.map fun object =>
    { object with verb := some (object.verb.getD (.stub object.verbName)) }
  warnings := (if sources.isEmpty then [.missingResource "scripts"] else []) ++
    (if bindings.entry.isNone then [.missingFunction "entry"] else []) ++
    (if bindings.exit.isNone then [.missingFunction "exit"] else [])

theorem result_bindScripts (room : String) (sources : List ScriptSource) (objects : List Object) :
    (bindScripts room sources objects).result =
      (Report.fold Bindings.addScript { objects } sources).result.map
        (Bound.ofBindings sources) := by
  unfold bindScripts
  split
  · next hempty =>
    simp only [Report.result_bind, warn, Report.result_say, Report.result_pure, ok_bind]
    cases (Report.fold Bindings.addScript { objects } sources).result with
    | error e => rfl
    | ok bindings =>
      simp [ok_bind, result_orStub, result_each_completeVerb, Except.map, Bound.ofBindings, hempty]
  · next hempty =>
    simp only [Report.result_bind, Report.result_pure, ok_bind]
    cases (Report.fold Bindings.addScript { objects } sources).result with
    | error e => rfl
    | ok bindings =>
      simp [ok_bind, result_orStub, result_each_completeVerb, Except.map, Bound.ofBindings, hempty]

theorem Bindings.Binds.bound_eq {objects : List Object} {sources : List ScriptSource}
    {scripts : List Declarations} {bindings : Bindings} (hlength : sources.length = scripts.length)
    (h : bindings.Binds objects (scripts.flatMap (·.constants)) (scripts.flatMap (·.routines))) :
    Bound.ofBindings sources bindings = .ofScripts objects scripts := by
  have hempty : sources.isEmpty = scripts.isEmpty := by
    rw [Bool.eq_iff_iff, List.isEmpty_iff_length_eq_zero, List.isEmpty_iff_length_eq_zero, hlength]
  simp only [Bound.ofBindings, Bound.ofScripts, h.constants_eq, h.entry_eq, h.exit_eq,
    h.routines_eq, h.objects_eq, hempty, missing, List.map_map]
  rfl

/-- The scripts of a room are bound if they can be read and their functions are admissible. -/
theorem bindScripts_eq_ok_iff {room : String} {sources : List ScriptSource} {objects : List Object}
    {bound : Bound} (hdistinct : (objects.map Object.verbName).Nodup) :
    (bindScripts room sources objects).result = .ok bound ↔ ∃ scripts,
      List.Forall₂ (fun source script => parse source.text = .ok script) sources scripts ∧
      Admissible objects (scripts.flatMap (·.routines)) ∧ bound = .ofScripts objects scripts := by
  have hstart : Admissible objects [] := ⟨by simp, by simp, Nat.zero_le _⟩
  rw [result_bindScripts, map_eq_ok_iff]
  constructor
  · rintro ⟨bindings, hbindings, rfl⟩
    obtain ⟨scripts, hscripts, hadmissible, hbinds⟩ :=
      (Bindings.binds_start objects).fold_addScript hdistinct hstart hbindings
    exact ⟨scripts, hscripts, hadmissible, hbinds.bound_eq hscripts.length_eq⟩
  · rintro ⟨scripts, hscripts, hadmissible, rfl⟩
    obtain ⟨bindings, hbindings⟩ :=
      (Bindings.binds_start objects).exists_fold_addScript hdistinct hstart hscripts hadmissible
    refine ⟨bindings, hbindings, ?_⟩
    -- The scripts that the bindings were made from are these: each text has one.
    obtain ⟨others, hothers, -, hbinds⟩ :=
      (Bindings.binds_start objects).fold_addScript hdistinct hstart hbindings
    obtain rfl : others = scripts :=
      Except.ok.inj ((mapM_eq_ok_iff.mpr hothers).symm.trans (mapM_eq_ok_iff.mpr hscripts))
    exact hbinds.bound_eq hscripts.length_eq

end RoomForge.Room
