import RoomForge.Proofs.Linking
import RoomForge.Proofs.Reordering

set_option autoImplicit false

/-! # Functions with their own code

The functions of a room are compiled in four passes, under names that are collected before, and the
codes are handed out when all have compiled (specification, section 4.3, compilation order). Each
function ends up with what compiling it under the names of the finished room gives, and a room fails
with the fault of the first function that does not compile: `rooms_carry_their_own_code`.

That the codes reach the functions they were compiled from is `result_compile` in `Proofs.Assembly`.
Here the names of the room before and after compiling are shown to be the same.
-/

namespace RoomForge

/-! ## Failing alike -/

/-- Two computations fail alike, whatever they give otherwise. -/
abbrev FailsAlike {ε α β : Type} : Except ε α → Except ε β → Prop :=
  EndsAlike fun _ _ => True

namespace EndsAlike

variable {ε α β : Type} {R : α → β → Prop} {first : Except ε α} {second : Except ε β}

theorem eq_error_iff (h : EndsAlike R first second) {fault : ε} :
    first = .error fault ↔ second = .error fault := by
  cases h with
  | ok => simp
  | error e => simp

end EndsAlike

/-- A walk through a list that calls for some of its items fails like the calls alone. -/
theorem mapM_failsAlike {ε α β γ δ : Type} {step : α → Except ε β} {call? : α → Option γ}
    {call : γ → Except ε δ} (hskip : ∀ item, call? item = none → ∃ result, step item = .ok result)
    (hcall : ∀ item called, call? item = some called → FailsAlike (step item) (call called))
    (items : List α) : FailsAlike (items.mapM step) ((items.filterMap call?).mapM call) := by
  induction items with
  | nil => exact .ok trivial
  | cons item rest ih =>
    rw [List.mapM_cons]
    cases hitem : call? item with
    | none =>
      obtain ⟨result, hresult⟩ := hskip item hitem
      rw [List.filterMap_cons_none hitem, hresult, ok_bind, ← bind_pure (List.mapM call _)]
      exact ih.bind fun _ _ _ => .ok trivial
    | some called =>
      rw [List.filterMap_cons_some hitem, List.mapM_cons]
      refine (hcall item called hitem).bind fun _ _ _ => ?_
      exact ih.bind fun _ _ _ => .ok trivial

end RoomForge

namespace RoomForge.Code

open RoomForge.Script

/-! ## Code does not depend on code -/

theorem Instr.Alike.eq {τ : Type} {first second : Instr τ} (h : Instr.Alike Eq first second) :
    first = second := by
  cases h with
  | same => rfl
  | start h => rw [h]

theorem ListingsAlike.eq {first second : Listing} (h : ListingsAlike Eq first second) :
    first = second := by
  obtain ⟨instrs, locals⟩ := first
  obtain ⟨instrs', locals'⟩ := second
  obtain ⟨hinstrs, hlocals⟩ := h
  obtain rfl : instrs = instrs' :=
    List.forall₂_eq_eq_eq ▸ hinstrs.imp fun _ _ hinstr => hinstr.eq
  obtain rfl : locals = locals' := hlocals
  rfl

theorem twins_of_uncompiled {first second : Routine} (h : first.uncompiled = second.uncompiled) :
    Twins Eq first second := by
  obtain ⟨hname, hkind, hbody, -, hnumber, -⟩ := Routine.mk.inj h
  refine ⟨hname, hkind, hbody, ?_⟩
  rw [hnumber]
  cases second.number with
  | none => exact .none
  | some number => exact .some rfl

/-- Looking a name up in two rows of functions that differ in nothing but their code. -/
theorem find?_twins {routines routines' : List Routine}
    (h : routines.map Routine.uncompiled = routines'.map Routine.uncompiled) (name : String) :
    Option.Rel (Twins Eq) (routines.find? fun routine => routine.name == name)
      (routines'.find? fun routine => routine.name == name) := by
  induction routines generalizing routines' with
  | nil =>
    obtain rfl := List.map_eq_nil_iff.mp h.symm
    exact .none
  | cons routine rest ih =>
    obtain ⟨routine', rest', rfl, hroutine, hrest⟩ := List.map_eq_cons_iff.mp h.symm
    have htwins := twins_of_uncompiled hroutine.symm
    rw [List.find?_cons, List.find?_cons, ← htwins.name_eq]
    cases routine.name == name with
    | true => exact .some htwins
    | false => exact ih hrest.symm

/-- Rooms whose functions differ in nothing but the code that they carry have the same names. -/
theorem roomsAlike_of_uncompiled (constants : List Constant) {routines routines' : List Routine}
    (h : routines.map Routine.uncompiled = routines'.map Routine.uncompiled) :
    RoomsAlike Eq (.ofRoom constants routines) (.ofRoom constants routines') := by
  constructor
  · intro name
    rw [Room.resolve?_ofRoom, Room.resolve?_ofRoom]
    refine rel_or ?_ (rel_or ?_ (Room.resolve?_engine Eq name))
    · cases constants.reverse.find? fun constant => constant.name == name with
      | none => exact .none
      | some constant => exact .some (.constant constant.value)
    · have hfind := find?_twins h name
      generalize routines.find? (fun routine => routine.name == name) = found at hfind
      generalize routines'.find? (fun routine => routine.name == name) = found' at hfind
      cases hfind with
      | none => exact .none
      | some htwins => exact .some (.routine htwins)
  · rfl
  · have hlength := congrArg List.length h
    simpa [Scope.ofRoom, Scope.routines] using hlength

/-- A function is compiled from its name and body, under the names of its room: no code that is
there already has a part in it. -/
theorem compileBytes_congr (constants : List Constant) {routines routines' : List Routine}
    (h : routines.map Routine.uncompiled = routines'.map Routine.uncompiled)
    {routine routine' : Routine} (hroutine : routine.uncompiled = routine'.uncompiled) :
    compileBytes (.ofRoom constants routines) routine =
      compileBytes (.ofRoom constants routines') routine' := by
  have htwins := twins_of_uncompiled hroutine
  have hlistings : EndsAlike (ListingsAlike Eq)
      (compileListing (.ofRoom constants routines) routine)
      (compileListing (.ofRoom constants routines') routine') :=
    compileListing_alike (roomsAlike_of_uncompiled constants h) htwins.name_eq htwins.body_eq
  rw [compileBytes, compileBytes, htwins.name_eq]
  generalize compileListing (.ofRoom constants routines) routine = first at hlistings
  generalize compileListing (.ofRoom constants routines') routine' = second at hlistings
  cases hlistings with
  | error e => rfl
  | ok hlisting => rw [hlisting.eq]

end RoomForge.Code

namespace RoomForge.Room

open RoomForge.Code RoomForge.Script

/-! ## Compiling in passes -/

theorem result_compileRoutine (scope : Scope) (routine : Routine) :
    (compileRoutine scope routine).result = compileBytes scope routine := by
  simp only [compileRoutine, Report.result_bind, Report.result_ofExcept, Report.result_say,
    Report.result_pure, ok_bind, compileBytes]
  refine bind_congr fun listing => ?_
  exact bind_pure _

theorem withCode_eq_compileBytes (scope : Scope) (routine : Routine) :
    (withCode scope routine).result =
      compileBytes scope routine >>= fun code => .ok { routine with code := some code } := by
  simp only [withCode, Report.result_bind, Report.result_pure, result_compileRoutine]

theorem withCode_failsAlike (scope : Scope) (routine : Routine) :
    FailsAlike (withCode scope routine).result (compileBytes scope routine) := by
  rw [withCode_eq_compileBytes]
  cases compileBytes scope routine with
  | ok code => exact .ok trivial
  | error fault => exact .error fault

theorem routines_failAlike (scope : Scope) (routines : List Routine) :
    FailsAlike (Report.each (withCodeUnlessInlined scope) routines).result
      ((routines.filter fun routine => !routine.isInlined).mapM (compileBytes scope)) := by
  rw [Report.result_each, ← List.filterMap_eq_filter]
  refine mapM_failsAlike (fun routine hroutine => ?_) (fun routine called hcalled => ?_) routines
  · have hinlined : routine.isInlined = true := by simpa using hroutine
    exact ⟨routine, by rw [withCodeUnlessInlined, if_pos hinlined]; rfl⟩
  · obtain ⟨rfl, hnormal⟩ := Option.guard_eq_some_iff.mp hcalled
    rw [withCodeUnlessInlined, if_neg (by simpa using hnormal)]
    exact withCode_failsAlike scope routine

theorem verbs_failAlike (scope : Scope) (objects : List Object) :
    FailsAlike (Report.each (withVerbCode scope) objects).result
      ((objects.filterMap (·.verb)).mapM (compileBytes scope)) := by
  rw [Report.result_each]
  refine mapM_failsAlike (fun object hobject => ?_) (fun object verb hverb => ?_) objects
  · exact ⟨object, by rw [withVerbCode, hobject]; rfl⟩
  · rw [withVerbCode, hverb, ← bind_pure (compileBytes scope verb)]
    simp only [Report.result_bind]
    exact (withCode_failsAlike scope verb).bind fun _ _ _ => .ok trivial

/-- What is done for a room before its functions are compiled: its scripts are read and bound, and
its names are collected. -/
structure Prepared (source : Source) (bound : Bound) (registry : Registry) : Prop where
  scripts : (bindScripts source.name source.scripts
    (mergeColors source.palette source.objects source.costumes).objects).result = .ok bound
  names : ∃ resources, (Registry.ofResources source).result = .ok resources ∧
    resources.insertAll bound.constants = .ok registry

/-- The functions that are compiled for a room, in the order in which they are. -/
def Bound.coded (bound : Bound) : List Routine :=
  bound.routines.filter (fun routine => !routine.isInlined) ++
    (bound.entry :: bound.exit :: bound.objects.filterMap (·.verb))

/-- A prepared room fails like its functions, compiled one after the other. -/
theorem Prepared.assemble_failsAlike {source : Source} {bound : Bound} {registry : Registry}
    (h : Prepared source bound registry) (id : UInt8) :
    FailsAlike (assemble id source).result
      (bound.coded.mapM (compileBytes (.ofRoom registry.entries.toList bound.routines))) := by
  obtain ⟨hbound, resources, hresources, hregistry⟩ := h
  rw [result_assemble, hresources]
  simp only [ok_bind, hbound, hregistry, Bound.coded, List.mapM_append, List.mapM_cons, bind_assoc]
  refine (routines_failAlike _ bound.routines).bind fun _ _ _ => ?_
  refine (withCode_failsAlike _ bound.entry).bind fun _ _ _ => ?_
  refine (withCode_failsAlike _ bound.exit).bind fun _ _ _ => ?_
  exact (verbs_failAlike _ bound.objects).bind fun _ _ _ => .ok trivial

/-! ## The functions of accepted rooms -/

/-- The code of a function is what compiling it under these names gives. -/
def CarriesCode (scope : Scope) (routine : Routine) : Prop :=
  ∃ code, compileBytes scope routine = .ok code ∧ routine.code = some code

/-- Every function of a room that is compiled carries its own code, and the others carry none. -/
structure OwnCode (scope : Scope) (room : RoomForge.Room) : Prop where
  routines : ∀ routine ∈ room.routines,
    if routine.isInlined then routine.code = none else CarriesCode scope routine
  entry : CarriesCode scope room.entry
  exit : CarriesCode scope room.exit
  verbs : ∀ object ∈ room.objects, ∃ verb, object.verb = some verb ∧ CarriesCode scope verb

/-- The name of a constant stands for its value wherever nothing nearer has the name. -/
def Visible (scope : Scope) (constant : Constant) : Prop :=
  ∀ inner : List Frame, (∀ frame ∈ inner, frame.find? constant.name = none) →
    Scope.resolve? (inner ++ scope) constant.name = some (.constant constant.value)

theorem carriesCode_of_compiled {room : RoomForge.Room} {routine : Routine}
    (h : Compiled room.scope routine) :
    CarriesCode (.ofRoom room.constants room.routines) routine := by
  obtain ⟨listing, code, hlisting, hencode, hcode⟩ := h
  have huncompiled : room.routines.map Routine.uncompiled =
      (room.routines.map Routine.uncompiled).map Routine.uncompiled := by
    rw [List.map_map]
    rfl
  refine ⟨code, ?_, hcode⟩
  rw [compileBytes_congr room.constants huncompiled rfl]
  exact bind_eq_ok_iff.mpr ⟨listing, hlisting, hencode⟩

theorem visible_of_mem {constants : List Constant} {routines : List Routine} {constant : Constant}
    (hdistinct : (constants.map Constant.name).Nodup) (h : constant ∈ constants) :
    Visible (.ofRoom constants routines) constant := by
  intro inner hinner
  induction inner with
  | nil =>
    have hreverse : (constants.reverse.map Constant.name).Nodup := by
      rwa [List.map_reverse, List.nodup_reverse]
    rw [List.nil_append, resolve?_ofRoom,
      (find?_eq_some_iff_of_nodup hreverse).mpr ⟨List.mem_reverse.mpr h, rfl⟩]
    rfl
  | cons frame outer ih =>
    rw [List.forall_mem_cons] at hinner
    rw [List.cons_append, Scope.resolve?, hinner.1]
    exact ih hinner.2

namespace Made

variable {id : UInt8} {source : Source} {scripts : List Declarations} {room : RoomForge.Room}

theorem ownCode (h : Made id source scripts room) :
    OwnCode (.ofRoom room.constants room.routines) room := by
  have horderly := orderly_of_assemble (assemble_eq_ok_iff.mpr ⟨scripts, h⟩)
  have hcode : ∀ routine ∈ room.compiled,
      CarriesCode (.ofRoom room.constants room.routines) routine :=
    fun routine hroutine => carriesCode_of_compiled (horderly.compiled routine hroutine)
  constructor
  · intro routine hroutine
    split
    · next hinlined =>
      obtain ⟨bound, hbound, hcompiled⟩ :=
        exists_left_of_forall₂ (Report.result_each_eq_ok_iff.mp h.routines) hroutine
      have hkind : bound.isInlined = true :=
        (congrArg Routine.isInlined (uncompiled_of_withCodeUnlessInlined hcompiled)).trans hinlined
      rw [withCodeUnlessInlined, if_pos hkind] at hcompiled
      obtain rfl := Except.ok.inj hcompiled
      exact h.code_of_mem_bound hbound
    · next hnormal => exact hcode routine (by simp [compiled, hroutine, hnormal])
  · exact hcode room.entry (by simp [compiled])
  · exact hcode room.exit (by simp [compiled])
  · intro object hobject
    obtain ⟨_, -, verb, -, rfl⟩ := exists_left_of_forall₂ h.forall₂_objects hobject
    refine ⟨verb, rfl, hcode verb ?_⟩
    exact List.mem_append_right _ (List.mem_filterMap.mpr ⟨_, hobject, rfl⟩)

theorem visible (h : Made id source scripts room) {script : Declarations}
    (hscript : script ∈ scripts)
    {constant : Constant} (hconstant : constant ∈ script.constants) :
    Visible (.ofRoom room.constants room.routines) constant := by
  have hconstants : room.constants = constantsOf source scripts := by
    rw [h.eq_room]
  rw [hconstants]
  refine visible_of_mem h.distinct (List.mem_append_right _ ?_)
  exact List.mem_flatMap.mpr ⟨script, hscript, hconstant⟩

end Made

/-- An accepted room was prepared, and has the names that were collected for it. -/
theorem exists_prepared {id : UInt8} {source : Source} {room : RoomForge.Room}
    (h : (assemble id source).result = .ok room) : ∃ bound registry,
      Prepared source bound registry ∧ room.constants = registry.entries.toList ∧
      room.routines.map Routine.uncompiled = bound.routines.map Routine.uncompiled := by
  rw [result_assemble] at h
  simp only [bind_eq_ok_iff] at h
  obtain ⟨resources, hresources, bound, hbound, registry, hregistry, routines, hroutines, _, -, _,
    -, _, -, hroom⟩ := h
  obtain rfl := Except.ok.inj hroom
  refine ⟨bound, registry, ⟨hbound, resources, hresources, hregistry⟩, rfl, ?_⟩
  exact (map_eq_map_of_forall₂ (Report.result_each_eq_ok_iff.mp hroutines)
    fun _ _ => uncompiled_of_withCodeUnlessInlined).symm

/-- In an accepted room each function carries what compiling it under the names of the room gives,
inlined ones carry nothing, and all of them see the constants of all scripts. A room whose scripts
and names are in order fails exactly if one of its functions does not compile, and then with the
fault of the first one in the order functions of the room, entry, exit, verbs. -/
theorem rooms_carry_their_own_code (session : Session) (source : Source) :
    (∀ room, (session.compile source).2.result = .ok room → ∃ scripts bound registry,
      List.Forall₂ (fun text script => parse text.text = .ok script) source.scripts scripts ∧
      Prepared source bound registry ∧ room.constants = registry.entries.toList ∧
      room.routines.map Routine.uncompiled = bound.routines.map Routine.uncompiled ∧
      OwnCode (.ofRoom room.constants room.routines) room ∧
      ∀ script ∈ scripts, ∀ constant ∈ script.constants,
        Visible (.ofRoom room.constants room.routines) constant) ∧
    ∀ bound registry, session.next ≠ 0 → Prepared source bound registry → ∀ fault,
      (session.compile source).2.result = .error fault ↔
        ∃ (index : Nat) (routine : Routine), bound.coded[index]? = some routine ∧
          compileBytes (.ofRoom registry.entries.toList bound.routines) routine = .error fault ∧
          ∀ before < index, ∀ earlier, bound.coded[before]? = some earlier → ∃ code,
            compileBytes (.ofRoom registry.entries.toList bound.routines) earlier = .ok code := by
  constructor
  · intro room h
    obtain ⟨-, scripts, hmade⟩ := Session.compile_eq_ok_iff.mp h
    obtain ⟨bound, registry, hprepared, hconstants, hroutines⟩ :=
      exists_prepared (assemble_eq_ok_iff.mpr ⟨scripts, hmade⟩)
    exact ⟨scripts, bound, registry, hmade.read, hprepared, hconstants, hroutines, hmade.ownCode,
      fun script hscript constant hconstant => hmade.visible hscript hconstant⟩
  · intro bound registry hnumber hprepared fault
    rw [Session.compile, if_neg hnumber, ← mapM_eq_error_iff]
    exact (hprepared.assemble_failsAlike session.next).eq_error_iff

/-- A room whose functions use the constant of another script, one of them through an inlined
function. -/
def lighthouse : Source where
  name := "lighthouse"
  background := .empty
  objects := [{ id := 5, name := "lamp", x := 0, y := 0 }]
  scripts := [⟨"signals", "const FLASH = 3; inline function dim() \x7b print(FLASH); \x7d"⟩,
    ⟨"keeper", "function climb() \x7b dim(); \x7d function lamp_verb() \x7b print(FLASH); \x7d"⟩]

/-- The room with two functions that do not compile. -/
def stormyLighthouse : Source :=
  { lighthouse with scripts := lighthouse.scripts ++
      [⟨"storm", "function exit() \x7b drown(); \x7d function flee() \x7b swim(); \x7d"⟩] }

theorem lighthouse_carries_its_own_code :
    (∃ room, (Session.compile {} lighthouse).2.result = .ok room ∧
      OwnCode (.ofRoom room.constants room.routines) room ∧
      Visible (.ofRoom room.constants room.routines) ⟨"FLASH", 3⟩) ∧
    (∃ bound registry, Prepared stormyLighthouse bound registry) ∧
    (Session.compile {} stormyLighthouse).2.result = .error (.unresolved ⟨"flee", 1⟩ "swim") := by
  constructor
  · have hok : (Session.compile {} lighthouse).2.result.isOk = true := by decide +kernel
    obtain ⟨room, hroom⟩ := exists_ok_of_isOk hok
    obtain ⟨scripts, _, _, hread, _, _, _, hown, hvisible⟩ :=
      (rooms_carry_their_own_code {} lighthouse).1 room hroom
    have hflash : ((lighthouse.scripts.mapM fun text => parse text.text).toOption.any fun scripts =>
        scripts.any fun script => script.constants.contains ⟨"FLASH", 3⟩) = true := by
      decide +kernel
    rw [mapM_eq_ok_iff.mpr hread] at hflash
    simp only [Except.toOption, Option.any_some, List.any_eq_true, List.contains_iff_mem] at hflash
    obtain ⟨script, hscript, hconstant⟩ := hflash
    exact ⟨room, hroom, hown, hvisible script hscript ⟨"FLASH", 3⟩ hconstant⟩
  · have hprepared : ((bindScripts stormyLighthouse.name stormyLighthouse.scripts
        stormyLighthouse.objects).result.toOption.any fun bound =>
          (Registry.ofResources stormyLighthouse).result.toOption.any fun resources =>
            (resources.insertAll bound.constants).toOption.any fun registry =>
              bound.coded[0]?.any (fun routine => (compileBytes
                (.ofRoom registry.entries.toList bound.routines) routine).isOk) &&
              bound.coded[1]?.any (fun routine => decide (compileBytes
                (.ofRoom registry.entries.toList bound.routines) routine =
                  .error (.unresolved ⟨"flee", 1⟩ "swim")))) = true := by decide +kernel
    simp only [Option.any_eq_true, toOption_eq_some_iff, Bool.and_eq_true, decide_eq_true_eq]
      at hprepared
    obtain ⟨bound, hbound, resources, hresources, registry, hregistry, ⟨first, hfirst, hok⟩, second,
      hsecond, hfault⟩ := hprepared
    have hready : Prepared stormyLighthouse bound registry :=
      ⟨hbound, resources, hresources, hregistry⟩
    refine ⟨⟨bound, registry, hready⟩, ?_⟩
    have hcarry := (rooms_carry_their_own_code {} stormyLighthouse).2 bound registry (by decide)
    refine (hcarry hready _).mpr ⟨1, second, hsecond, hfault, ?_⟩
    intro before hbefore earlier hearlier
    obtain rfl : before = 0 := Nat.lt_one_iff.mp hbefore
    obtain rfl := Option.some.inj (hfirst.symm.trans hearlier)
    exact exists_ok_of_isOk hok

end RoomForge.Room
