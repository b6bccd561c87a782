import Mathlib.Logic.ExistsUnique
import RoomForge.Proofs.Assembly

set_option autoImplicit false

/-! # Functions in their places

Nothing that is written in the scripts of an accepted room is lost or doubled on the way into it:
each function has one place, which goes by its name, and stands there as it was written
(specification, section 4.3, binding). What no function was written for is as the resources of the
room have it, or empty. `accepted_rooms_keep_their_functions` is the result.

A verb that an object brings along stays if no function is named after the object. Loading makes no
such objects, so this goes beyond what the program can be given.
-/

namespace RoomForge.Script

/-- A function as it was written: without its number and its code. -/
def Routine.asWritten (routine : Routine) : Routine :=
  { routine with number := none, code := none }

theorem Routine.IsWritten.asWritten_eq {routine : Routine} (h : routine.IsWritten) :
    routine.asWritten = routine := by
  rw [Routine.asWritten, ← h.number, ← h.code]

theorem Routine.IsWritten.ne_stub {routine : Routine} (h : routine.IsWritten) (name : String) :
    routine ≠ .stub name := by
  rintro rfl
  exact absurd h.line (by simp [Routine.stub])

end RoomForge.Script

namespace RoomForge.Room

open RoomForge.Code RoomForge.Script

/-! ## Places -/

/-- Where a room keeps a function. -/
inductive Place where
  | entry
  | exit
  /-- The verb of the object at `index`. -/
  | verb (index : Nat)
  /-- Among the functions without a role of their own. -/
  | own (index : Nat)
  deriving DecidableEq, Repr

namespace Place

/-- What a room keeps at a place. -/
def get? (room : RoomForge.Room) : Place → Option Routine
  | .entry => some room.entry
  | .exit => some room.exit
  | .verb index => room.objects[index]?.bind (·.verb)
  | .own index => room.routines[index]?

/-- A place for functions called `name`, in a room with these objects. -/
def Suits (objects : List Object) (name : String) : Place → Prop
  | .entry => name = "entry"
  | .exit => name = "exit"
  | .verb index => ∃ object, objects[index]? = some object ∧ object.name ++ "_verb" = name
  | .own _ => name ≠ "entry" ∧ name ≠ "exit" ∧ ∀ object ∈ objects, object.name ++ "_verb" ≠ name

/-- The place suits the role that the name gives. -/
theorem suits_iff {objects : List Object} (hdistinct : (objects.map Object.verbName).Nodup)
    {name : String} {place : Place} :
    place.Suits objects name ↔ match place with
      | .entry => Role.ofName name objects = .entry
      | .exit => Role.ofName name objects = .exit
      | .verb index => Role.ofName name objects = .verb index
      | .own _ => Role.ofName name objects = .free := by
  cases place with
  | entry => exact Role.ofName_eq_entry_iff.symm
  | exit => exact Role.ofName_eq_exit_iff.symm
  | verb index => exact (Role.ofName_eq_verb_iff hdistinct).symm
  | own index => exact Role.ofName_eq_free_iff.symm

end Place

/-- `routine` is what the scripts have by the name `name`. Where they have nothing by that name, it
is empty and the room has a warning. -/
structure Supplies (declared : List Routine) (room : RoomForge.Room) (name : String)
    (routine : Routine) : Prop where
  stub_iff : routine.asWritten = .stub name ↔ name ∉ declared.map Routine.name
  warned_iff : .missingFunction name ∈ room.warnings ↔ name ∉ declared.map Routine.name
  normal : routine.isInlined = false

/-- A room keeps the functions that are declared in its scripts. -/
structure Keeps (source : Source) (declared : List Routine) (room : RoomForge.Room) : Prop where
  /-- No two functions have the same name. -/
  distinct : (declared.map Routine.name).Nodup
  /-- Each function has one place that suits its name, and is there as it was written. -/
  placed : ∀ routine ∈ declared, ∃! place : Place,
    place.Suits source.objects routine.name ∧
      (place.get? room).map Routine.asWritten = some routine
  /-- The room has no functions of its own but those, in the same order. -/
  own : room.routines.map Routine.asWritten = declared.filter fun routine =>
    routine.name ≠ "entry" ∧ routine.name ≠ "exit" ∧
      ∀ object ∈ source.objects, object.name ++ "_verb" ≠ routine.name
  entry : Supplies declared room "entry" room.entry
  exit : Supplies declared room "exit" room.exit
  /-- There is no such warning about any other function. -/
  warned : ∀ name, .missingFunction name ∈ room.warnings → name = "entry" ∨ name = "exit"
  /-- A verb is not inlined if it comes from a script, and otherwise the one its object came with,
  or an empty one. -/
  verbs : ∀ (index : Nat) object, source.objects[index]? = some object →
    ∃ verb, (Place.verb index).get? room = some verb ∧
      if object.name ++ "_verb" ∈ declared.map Routine.name then verb.isInlined = false
      else verb.uncompiled = (object.verb.getD (.stub (object.name ++ "_verb"))).uncompiled

/-! ## The places of declared functions -/

theorem asWritten_congr {first second : Routine} (h : first.uncompiled = second.uncompiled) :
    first.asWritten = second.asWritten :=
  congrArg (fun routine => { routine with number := none }) h

namespace Made

variable {id : UInt8} {source : Source} {scripts : List Declarations} {room : RoomForge.Room}

theorem nodup_verbNames (h : Made id source scripts room) :
    (source.objects.map Object.verbName).Nodup :=
  Room.nodup_verbNames (nodup_map_of_append h.distinct)

theorem asWritten_routines (h : Made id source scripts room) :
    room.routines.map Routine.asWritten =
      freeOf source.objects (scripts.flatMap (·.routines)) := by
  have huncompiled : room.routines.map Routine.asWritten =
      (room.routines.map Routine.uncompiled).map Routine.asWritten := by
    rw [List.map_map]
    rfl
  rw [huncompiled, h.uncompiled_routines, map_numberFrom (fun _ _ => rfl)]
  conv_rhs => rw [← List.map_id (freeOf source.objects (scripts.flatMap (·.routines)))]
  apply List.map_congr_left
  intro routine hroutine
  exact (h.isWritten routine (List.mem_of_mem_filter hroutine)).asWritten_eq

/-- The function in a place for which there is an empty one, if the scripts have none. -/
theorem asWritten_getD (h : Made id source scripts room) (name : String) :
    ((named? (scripts.flatMap (·.routines)) name).getD (.stub name)).asWritten =
      (named? (scripts.flatMap (·.routines)) name).getD (.stub name) := by
  cases hnamed : named? (scripts.flatMap (·.routines)) name with
  | none => rfl
  | some routine =>
    have hroutine := ((named?_eq_some_iff h.admissible.distinct).mp hnamed).1
    exact (h.isWritten routine hroutine).asWritten_eq

theorem supplies (h : Made id source scripts room) {name : String} {compiled : Routine}
    (hcode : (withCode (scopeOf source scripts)
      ((named? (scripts.flatMap (·.routines)) name).getD (.stub name))).result = .ok compiled)
    (hrole : Role.ofName name source.objects ≠ .free)
    (hwarned : .missingFunction name ∈ room.warnings ↔
      name ∉ (scripts.flatMap (·.routines)).map Routine.name) :
    Supplies (scripts.flatMap (·.routines)) room name compiled := by
  have hcompiled := uncompiled_of_withCode hcode
  have hwritten := (asWritten_congr hcompiled).trans (h.asWritten_getD name)
  rw [← named?_eq_none_iff] at hwarned
  constructor
  · rw [hwritten, ← named?_eq_none_iff]
    cases hnamed : named? (scripts.flatMap (·.routines)) name with
    | none => simp
    | some routine =>
      have hroutine := ((named?_eq_some_iff h.admissible.distinct).mp hnamed).1
      simpa using (h.isWritten routine hroutine).ne_stub name
  · rw [hwarned, named?_eq_none_iff]
  · change compiled.uncompiled.isInlined = false
    rw [hcompiled]
    cases hnamed : named? (scripts.flatMap (·.routines)) name with
    | none => rfl
    | some routine =>
      obtain ⟨hroutine, rfl⟩ := (named?_eq_some_iff h.admissible.distinct).mp hnamed
      exact h.admissible.reserved routine hroutine hrole

theorem mem_warnings (h : Made id source scripts room) {name : String} :
    .missingFunction name ∈ room.warnings ↔ (name = "entry" ∨ name = "exit") ∧
      name ∉ (scripts.flatMap (·.routines)).map Routine.name := by
  have hoverflow : .missingFunction name ∉
      (mergeColors source.palette source.objects source.costumes).overflow.toList := by
    unfold mergeColors
    dsimp only
    split <;> simp
  have hwarnings : room.warnings =
      (mergeColors source.palette source.objects source.costumes).overflow.toList ++
        (boundOf source scripts).warnings := by
    rw [h.eq_room]
  have hmissing : ∀ other, .missingFunction name ∈ missing (scripts.flatMap (·.routines)) other ↔
      name = other ∧ name ∉ (scripts.flatMap (·.routines)).map Routine.name := by
    intro other
    rw [← named?_eq_none_iff, missing, ← Option.isNone_iff_eq_none]
    by_cases hother : name = other
    · subst hother
      split <;> simp_all
    · split <;> simp [hother]
  have hscripts : .missingFunction name ∉
      if scripts.isEmpty then [Warning.missingResource "scripts"] else [] := by
    split <;> simp
  rw [hwarnings, boundOf, Bound.ofScripts, List.mem_append, List.mem_append, List.mem_append,
    hmissing, hmissing]
  simp only [hoverflow, hscripts, false_or, or_and_right]

theorem uncompiled_verbs (h : Made id source scripts room) :
    room.objects.map (fun object => object.verb.map Routine.uncompiled) =
      source.objects.map fun object =>
        some (verbOf (scripts.flatMap (·.routines)) object).uncompiled := by
  have hmerged : (mergeColors source.palette source.objects source.costumes).objects.map
      (fun object => some (verbOf (scripts.flatMap (·.routines)) object).uncompiled) =
        source.objects.map fun object =>
          some (verbOf (scripts.flatMap (·.routines)) object).uncompiled :=
    map_mergeColors (fun _ _ => rfl) source
  rw [← hmerged]
  refine (map_eq_map_of_forall₂ h.forall₂_objects ?_).symm
  rintro object _ ⟨verb, hverb, rfl⟩
  exact congrArg some (uncompiled_of_withCode hverb).symm

theorem verb_at (h : Made id source scripts room) {index : Nat} {object : Object}
    (hobject : source.objects[index]? = some object) :
    ∃ verb, (Place.verb index).get? room = some verb ∧
      verb.uncompiled = (verbOf (scripts.flatMap (·.routines)) object).uncompiled := by
  have hverb := congrArg (·[index]?) h.uncompiled_verbs
  simp only [List.getElem?_map, hobject, Option.map_some, Option.map_eq_some_iff] at hverb
  obtain ⟨compiled, hcompiled, verb, hverb, hsame⟩ := hverb
  refine ⟨verb, ?_, hsame⟩
  rw [Place.get?, hcompiled]
  exact hverb

theorem own_at (h : Made id source scripts room) (index : Nat) :
    ((Place.own index).get? room).map Routine.asWritten =
      (freeOf source.objects (scripts.flatMap (·.routines)))[index]? := by
  rw [← h.asWritten_routines, List.getElem?_map]
  rfl

/-- Each function has one place that suits its name. -/
theorem existsUnique_place (h : Made id source scripts room) {routine : Routine}
    (hroutine : routine ∈ scripts.flatMap (·.routines)) :
    ∃! place : Place, place.Suits source.objects routine.name ∧
      (place.get? room).map Routine.asWritten = some routine := by
  have hnamed := (named?_eq_some_iff h.admissible.distinct).mpr ⟨hroutine, rfl⟩
  have hwritten := (h.isWritten routine hroutine).asWritten_eq
  simp only [Place.suits_iff h.nodup_verbNames]
  cases hrole : Role.ofName routine.name source.objects with
  | entry =>
    rw [Role.ofName_eq_entry_iff.mp hrole] at hnamed
    have hentry := asWritten_congr (uncompiled_of_withCode h.entry)
    refine ⟨.entry, ⟨rfl, ?_⟩, ?_⟩
    · rw [Place.get?, Option.map_some, hentry, boundOf, Bound.ofScripts, hnamed]
      exact congrArg some hwritten
    · rintro (_ | _ | _ | _) ⟨hsuits, -⟩
      · rfl
      all_goals exact absurd hsuits (by simp)
  | exit =>
    rw [Role.ofName_eq_exit_iff.mp hrole] at hnamed
    have hexit := asWritten_congr (uncompiled_of_withCode h.exit)
    refine ⟨.exit, ⟨rfl, ?_⟩, ?_⟩
    · rw [Place.get?, Option.map_some, hexit, boundOf, Bound.ofScripts, hnamed]
      exact congrArg some hwritten
    · rintro (_ | _ | _ | _) ⟨hsuits, -⟩
      case exit => rfl
      all_goals exact absurd hsuits (by simp)
  | verb index =>
    obtain ⟨object, hobject, hname⟩ := (Role.ofName_eq_verb_iff h.nodup_verbNames).mp hrole
    obtain ⟨verb, hverb, hsame⟩ := h.verb_at hobject
    refine ⟨.verb index, ⟨rfl, ?_⟩, ?_⟩
    · rw [hverb, Option.map_some, asWritten_congr hsame, verbOf, hname, hnamed]
      exact congrArg some hwritten
    · rintro (_ | _ | other | _) ⟨hsuits, -⟩
      case verb => exact congrArg Place.verb (Role.verb.inj hsuits).symm
      all_goals exact absurd hsuits (by simp)
  | free =>
    have hfree : routine ∈ freeOf source.objects (scripts.flatMap (·.routines)) :=
      List.mem_filter.mpr ⟨hroutine, by simp [hrole]⟩
    obtain ⟨index, hindex⟩ := List.mem_iff_getElem?.mp hfree
    refine ⟨.own index, ⟨rfl, (h.own_at index).trans hindex⟩, ?_⟩
    rintro (_ | _ | _ | other) ⟨hsuits, hother⟩
    case own =>
      rw [h.own_at, ← hindex] at hother
      have hdistinct : (freeOf source.objects (scripts.flatMap (·.routines))).Nodup :=
        (List.Nodup.of_map _ h.admissible.distinct).filter _
      have hlt := (List.getElem?_eq_some_iff.mp hindex).1
      exact congrArg Place.own ((List.getElem?_inj hlt hdistinct).mp hother.symm).symm
    all_goals exact absurd hsuits (by simp)

theorem keeps (h : Made id source scripts room) :
    Keeps source (scripts.flatMap (·.routines)) room where
  distinct := h.admissible.distinct
  placed := fun routine hroutine => h.existsUnique_place hroutine
  own := by
    rw [h.asWritten_routines, freeOf]
    apply List.filter_congr
    intro routine _
    rw [decide_eq_decide, Role.ofName_eq_free_iff]
    rfl
  entry := h.supplies h.entry (by simp [Role.ofName]) (by simp [h.mem_warnings])
  exit := h.supplies h.exit (by simp [Role.ofName]) (by simp [h.mem_warnings])
  warned := fun name hname => (h.mem_warnings.mp hname).1
  verbs := by
    intro index object hobject
    obtain ⟨verb, hverb, hsame⟩ := h.verb_at hobject
    refine ⟨verb, hverb, ?_⟩
    change if object.verbName ∈ (scripts.flatMap (·.routines)).map Routine.name
      then verb.uncompiled.isInlined = false
      else verb.uncompiled = (object.verb.getD (.stub object.verbName)).uncompiled
    rw [hsame, verbOf]
    cases hnamed : named? (scripts.flatMap (·.routines)) object.verbName with
    | none => rw [if_neg (named?_eq_none_iff.mp hnamed), Option.none_or]
    | some routine =>
      obtain ⟨hroutine, hname⟩ := (named?_eq_some_iff h.admissible.distinct).mp hnamed
      have hrole : Role.ofName routine.name source.objects = .verb index :=
        (Role.ofName_eq_verb_iff h.nodup_verbNames).mpr ⟨object, hobject, hname.symm⟩
      rw [if_pos (hname ▸ List.mem_map_of_mem hroutine)]
      exact h.admissible.reserved routine hroutine (by simp [hrole])

end Made

/-! ## Accepted rooms -/

/-- An accepted room keeps every function that is read from its scripts in one place, as it was
written, and has nothing else but what its resources came with and empty functions for what is
missing. -/
theorem accepted_rooms_keep_their_functions {session : Session} {source : Source}
    {room : RoomForge.Room} (h : (session.compile source).2.result = .ok room) :
    ∃ scripts,
      List.Forall₂ (fun text script => parse text.text = .ok script) source.scripts scripts ∧
      Keeps source (scripts.flatMap (·.routines)) room := by
  obtain ⟨-, scripts, hmade⟩ := Session.compile_eq_ok_iff.mp h
  exact ⟨scripts, hmade.read, hmade.keeps⟩

/-- A room with an exit and two objects. One came with a verb and gets another, one gets none. -/
def cellar : Source where
  name := "cellar"
  background := .empty
  objects := [
    { id := 1, name := "barrel", x := 0, y := 0, verb := some (.stub "roll") },
    { id := 2, name := "rat", x := 0, y := 0 }]
  scripts := [⟨"wine", "function pour() \x7b \x7d
function barrel_verb() \x7b pour(); \x7d"⟩, ⟨"door", "function exit() \x7b \x7d"⟩]

theorem cellar_keeps_its_functions :
    ∃ room, ∃ scripts : List Declarations, (Session.compile {} cellar).2.result = .ok room ∧
      (scripts.flatMap (·.routines)).map Routine.name = ["pour", "barrel_verb", "exit"] ∧
      Keeps cellar (scripts.flatMap (·.routines)) room := by
  have hok : (Session.compile {} cellar).2.result.isOk = true := by decide +kernel
  obtain ⟨room, hroom⟩ := exists_ok_of_isOk hok
  obtain ⟨scripts, hread, hkeeps⟩ := accepted_rooms_keep_their_functions hroom
  have hnames : (cellar.scripts.mapM fun text => parse text.text).toOption.map
      (fun scripts => (scripts.flatMap (·.routines)).map Routine.name) =
        some ["pour", "barrel_verb", "exit"] := by decide +kernel
  rw [mapM_eq_ok_iff.mpr hread] at hnames
  exact ⟨room, scripts, hroom, Option.some.inj hnames, hkeeps⟩

end RoomForge.Room
