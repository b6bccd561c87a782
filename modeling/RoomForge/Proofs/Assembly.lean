import RoomForge.Proofs.Binding

set_option autoImplicit false

/-! # What rooms are made of

The parts of an accepted room in terms of its sources and the scripts read from them: `Made` lists
them, and `assemble_eq_ok_iff` says that a room is accepted if and only if it can be made
(specification, section 4.4). All results about rooms start from these two.

Codes are compiled into lists and handed out from there. `withCode`, `withCodeUnlessInlined` and
`withVerbCode` are the other way to say it: each function is compiled in its place. `handOut_codes`
and `handOut_verbCodes` show that both give the same, because the functions that codes are compiled
from are the ones that have a place for a code, in the same order.
-/

namespace RoomForge.Script

/-- A function as it was before it was compiled. -/
def Routine.uncompiled (routine : Routine) : Routine :=
  { routine with code := none }

theorem Routine.uncompiled_eq_self {routine : Routine} (h : routine.code = none) :
    routine.uncompiled = routine := by
  rw [uncompiled, ← h]

end RoomForge.Script

namespace RoomForge.Room

open RoomForge.Code RoomForge.Script

/-! ## The constants of a room -/

namespace Registry

theorem find?_eq_none_iff {registry : Registry} {name : String} :
    registry.find? name = none ↔ name ∉ registry.entries.toList.map Constant.name := by
  rw [find?_eq, Array.find?_eq_none]
  simp

/-- A name that is taken is refused, and the registry stays as it is. -/
theorem insert_of_mem {registry : Registry} {constant : Constant}
    (h : constant.name ∈ registry.entries.toList.map Constant.name) :
    registry.insert constant = (registry, .error (.duplicate constant.name)) := by
  unfold insert
  split
  · rfl
  · next hfree => exact absurd h (find?_eq_none_iff.mp hfree)

/-- A constant with a new name is entered behind the others. -/
theorem insert_of_not_mem {registry : Registry} {constant : Constant}
    (h : constant.name ∉ registry.entries.toList.map Constant.name) :
    (registry.insert constant).2 = .ok () ∧
      (registry.insert constant).1.entries.toList = registry.entries.toList ++ [constant] := by
  unfold insert
  split
  · next hfound => exact absurd (hfound.symm.trans (find?_eq_none_iff.mpr h)) (by simp)
  · exact ⟨rfl, Array.toList_push⟩

theorem insertAll_cons (registry : Registry) (constant : Constant) (rest : List Constant) :
    registry.insertAll (constant :: rest) =
      (registry.insert constant).2 >>= fun () => (registry.insert constant).1.insertAll rest := by
  rw [insertAll]
  split
  all_goals next hinsert => rw [hinsert]; rfl

/-- Constants that are entered stand behind those that were there, and no two of all have the same
name. -/
theorem insertAll_ok {registry after : Registry} {constants : List Constant}
    (hdistinct : (registry.entries.toList.map Constant.name).Nodup)
    (h : registry.insertAll constants = .ok after) :
    after.entries.toList = registry.entries.toList ++ constants ∧
      (after.entries.toList.map Constant.name).Nodup := by
  induction constants generalizing registry with
  | nil =>
    obtain rfl := Except.ok.inj h
    exact ⟨by simp, hdistinct⟩
  | cons constant rest ih =>
    rw [insertAll_cons] at h
    by_cases hnew : constant.name ∈ registry.entries.toList.map Constant.name
    · rw [insert_of_mem hnew] at h
      cases h
    · obtain ⟨hok, hentries⟩ := insert_of_not_mem hnew
      rw [hok, ok_bind] at h
      have hnextDistinct :
          ((registry.insert constant).1.entries.toList.map Constant.name).Nodup := by
        rw [hentries]
        exact nodup_map_append_singleton_iff.mpr ⟨hdistinct, hnew⟩
      simpa [hentries] using ih hnextDistinct h

theorem exists_insertAll (registry : Registry) {constants : List Constant}
    (h : ((registry.entries.toList ++ constants).map Constant.name).Nodup) :
    ∃ after, registry.insertAll constants = .ok after := by
  induction constants generalizing registry with
  | nil => exact ⟨registry, rfl⟩
  | cons constant rest ih =>
    rw [← List.singleton_append, ← List.append_assoc] at h
    obtain ⟨hok, hentries⟩ :=
      insert_of_not_mem (nodup_map_append_singleton_iff.mp (nodup_map_of_append h)).2
    rw [insertAll_cons, hok, ok_bind]
    exact ih _ (by simpa [hentries] using h)

theorem insertAll_append (registry : Registry) (first second : List Constant) :
    registry.insertAll (first ++ second) = registry.insertAll first >>= (·.insertAll second) := by
  induction first generalizing registry with
  | nil => rfl
  | cons constant rest ih =>
    simp only [List.cons_append, insertAll_cons, ih, bind_assoc]

theorem result_ofResources (source : Source) :
    (ofResources source).result = insertAll {} (Engine.constants ++ resourceConstants source) := by
  simp only [ofResources, Report.result_bind, Report.result_ofExcept, Report.result_say, ok_bind,
    insertAll_append]

end Registry

/-- Objects of accepted resources have verbs of different names. -/
theorem nodup_verbNames {source : Source}
    (h : ((Engine.constants ++ Registry.resourceConstants source).map Constant.name).Nodup) :
    (source.objects.map Object.verbName).Nodup := by
  have hsub : (source.objects.map fun object => (⟨object.name, object.id.toNat⟩ : Constant)).Sublist
      (Engine.constants ++ Registry.resourceConstants source) := by
    apply List.sublist_append_of_sublist_right
    apply List.sublist_append_of_sublist_left
    apply List.sublist_append_of_sublist_left
    exact List.sublist_append_right ..
  have hnames : (source.objects.map Object.name).Nodup := by
    simpa [Function.comp_def] using (hsub.map Constant.name).nodup h
  exact List.pairwise_map.mpr
    ((List.pairwise_map.mp hnames).imp fun hne hsame => hne (Object.verbName_inj hsame))

/-! ## The colors of a room -/

/-- Merging colors changes nothing of an object but its images. -/
theorem map_placeObjectColors {γ : Type} {view : Object → γ}
    (hview : ∀ object images, view { object with images } = view object) (used : Nat)
    (objects : List Object) : (placeObjectColors used objects).1.map view = objects.map view := by
  induction objects generalizing used with
  | nil => rfl
  | cons object rest ih =>
    unfold placeObjectColors
    split
    · simp [ih]
    · simp [ih, hview]

theorem map_mergeColors {γ : Type} {view : Object → γ}
    (hview : ∀ object images, view { object with images } = view object) (source : Source) :
    (mergeColors source.palette source.objects source.costumes).objects.map view =
      source.objects.map view :=
  map_placeObjectColors hview _ source.objects

/-! ## The code of a room -/

/-- A function of a room with its code. -/
def withCode (room : Scope) (routine : Routine) : Report CompileError Routine := do
  let code ← compileRoutine room routine
  return { routine with code := some code }

/-- A function of a room with its code, unless it is inlined. -/
def withCodeUnlessInlined (room : Scope) (routine : Routine) : Report CompileError Routine :=
  if routine.isInlined then pure routine else withCode room routine

/-- An object with the code of its verb. -/
def withVerbCode (room : Scope) (object : Object) : Report CompileError Object :=
  match object.verb with
  | none => pure object
  | some verb => do
    let verb ← withCode room verb
    return { object with verb := some verb }

theorem result_withCode (room : Scope) (routine : Routine) :
    (withCode room routine).result =
      (compileRoutine room routine).result.map fun code => { routine with code := some code } := by
  rw [withCode, Report.result_bind]
  cases (compileRoutine room routine).result <;> rfl

theorem handOut_nil {α : Type} (place? : α → Option (Bytes → α)) (things : List α) :
    handOut place? things [] = things := by
  cases things <;> rfl

theorem handOut_cons_of_none {α : Type} {place? : α → Option (Bytes → α)} {thing : α}
    (h : place? thing = none) (rest : List α) (codes : List Bytes) :
    handOut place? (thing :: rest) codes = thing :: handOut place? rest codes := by
  cases codes with
  | nil => rw [handOut_nil, handOut_nil]
  | cons code codes => rw [handOut, h]

theorem handOut_cons_of_some {α : Type} {place? : α → Option (Bytes → α)} {thing : α}
    {put : Bytes → α} (h : place? thing = some put) (rest : List α) (code : Bytes)
    (codes : List Bytes) :
    handOut place? (thing :: rest) (code :: codes) = put code :: handOut place? rest codes := by
  rw [handOut, h]

/-- Things from which one walk takes the functions and to which another hands the codes out: if the
walks agree on which things those are, each thing gets the code of its own function. -/
theorem map_handOut_mapM {ε α ρ : Type} {function? : α → Option ρ}
    {place? : α → Option (Bytes → α)} {compile : ρ → Except ε Bytes} {filled : α → Except ε α}
    (hagree : ∀ thing,
      (function? thing = none ∧ place? thing = none ∧ filled thing = .ok thing) ∨
      ∃ function put, function? thing = some function ∧ place? thing = some put ∧
        filled thing = (compile function).map put)
    (things : List α) :
    ((things.filterMap function?).mapM compile).map (handOut place? things) =
      things.mapM filled := by
  induction things with
  | nil => rfl
  | cons thing rest ih =>
    rw [List.mapM_cons, ← ih]
    rcases hagree thing with ⟨hfunction, hplace, hfilled⟩ |
      ⟨function, put, hfunction, hplace, hfilled⟩
    · rw [List.filterMap_cons_none hfunction, hfilled, ok_bind]
      cases (rest.filterMap function?).mapM compile with
      | error e => rfl
      | ok codes => exact congrArg Except.ok (handOut_cons_of_none hplace rest codes)
    · rw [List.filterMap_cons_some hfunction, hfilled, List.mapM_cons]
      cases compile function with
      | error e => rfl
      | ok code =>
        rw [ok_bind]
        cases (rest.filterMap function?).mapM compile with
        | error e => rfl
        | ok codes => exact congrArg Except.ok (handOut_cons_of_some hplace rest code codes)

/-- The functions that are compiled into a list and get their codes from it are those that are not
inlined, in the same order. -/
theorem handOut_codes (scope : Scope) (routines : List Routine) :
    (Report.each (compileRoutine scope)
      (routines.filter fun routine => !routine.isInlined)).result.map
        (handOut codePlace? routines) =
      (Report.each (withCodeUnlessInlined scope) routines).result := by
  rw [Report.result_each, Report.result_each, ← List.filterMap_eq_filter]
  refine map_handOut_mapM (fun routine => ?_) routines
  cases hinlined : routine.isInlined with
  | true => exact .inl (by simp [codePlace?, withCodeUnlessInlined, hinlined])
  | false =>
    refine .inr ⟨routine, fun code => { routine with code := some code }, by simp [hinlined],
      by simp [codePlace?, hinlined], ?_⟩
    rw [withCodeUnlessInlined, if_neg (by simp [hinlined]), result_withCode]

/-- Verbs get their codes as functions do, one for each object that has a verb. -/
theorem handOut_verbCodes (scope : Scope) (objects : List Object) :
    (Report.each (compileRoutine scope) (objects.filterMap (·.verb))).result.map
        (handOut verbPlace? objects) =
      (Report.each (withVerbCode scope) objects).result := by
  rw [Report.result_each, Report.result_each]
  refine map_handOut_mapM (fun object => ?_) objects
  cases hverb : object.verb with
  | none => exact .inl (by simp [verbPlace?, withVerbCode, hverb])
  | some verb =>
    refine .inr ⟨verb, fun code => { object with verb := some { verb with code := some code } },
      rfl, by simp [verbPlace?, hverb], ?_⟩
    rw [withVerbCode, hverb, Report.result_bind, result_withCode]
    cases (compileRoutine scope verb).result <;> rfl

/-- Handing the codes out at the end gives every function its own. -/
theorem result_compile (bound : Bound) (scope : Scope) :
    (bound.compile scope).result = (do
      let routines ← (Report.each (withCodeUnlessInlined scope) bound.routines).result
      let entry ← (withCode scope bound.entry).result
      let exit ← (withCode scope bound.exit).result
      let objects ← (Report.each (withVerbCode scope) bound.objects).result
      .ok { bound with routines, entry, exit, objects }) := by
  rw [← handOut_codes, ← handOut_verbCodes]
  simp only [Bound.compile, withCode, Report.result_bind, Report.result_pure]
  cases (Report.each (compileRoutine scope)
    (bound.routines.filter fun routine => !routine.isInlined)).result with
  | error e => rfl
  | ok codes =>
    cases (compileRoutine scope bound.entry).result with
    | error e => rfl
    | ok entryCode =>
      cases (compileRoutine scope bound.exit).result with
      | error e => rfl
      | ok exitCode =>
        cases (Report.each (compileRoutine scope) (bound.objects.filterMap (·.verb))).result <;> rfl

theorem withCode_eq_ok_iff {room : Scope} {routine compiled : Routine} :
    (withCode room routine).result = .ok compiled ↔ ∃ listing code,
      compileListing room routine = .ok listing ∧ encode routine.name listing.instrs = .ok code ∧
      compiled = { routine with code := some code } := by
  simp only [withCode, compileRoutine, Report.result_bind, Report.result_pure,
    Report.result_ofExcept, Report.result_say, bind_eq_ok_iff]
  constructor
  · rintro ⟨_, ⟨listing, hlisting, code, hcode, _, _, hsame⟩, hcompiled⟩
    obtain rfl := Except.ok.inj hsame
    exact ⟨listing, code, hlisting, hcode, (Except.ok.inj hcompiled).symm⟩
  · rintro ⟨listing, code, hlisting, hcode, rfl⟩
    exact ⟨code, ⟨listing, hlisting, code, hcode, (), trivial, rfl⟩, rfl⟩

theorem uncompiled_of_withCode {room : Scope} {routine compiled : Routine}
    (h : (withCode room routine).result = .ok compiled) :
    compiled.uncompiled = routine.uncompiled := by
  obtain ⟨_, _, _, _, rfl⟩ := withCode_eq_ok_iff.mp h
  rfl

theorem uncompiled_of_withCodeUnlessInlined {room : Scope} {routine compiled : Routine}
    (h : (withCodeUnlessInlined room routine).result = .ok compiled) :
    routine.uncompiled = compiled.uncompiled := by
  unfold withCodeUnlessInlined at h
  split at h
  · obtain rfl := Except.ok.inj h
    rfl
  · exact (uncompiled_of_withCode h).symm

theorem result_withVerbCode (room : Scope) (object : Object) (verb : Routine) :
    (withVerbCode room { object with verb := some verb }).result =
      (withCode room verb).result.map fun compiled => { object with verb := some compiled } := by
  simp only [withVerbCode, Report.result_bind, Report.result_pure]
  cases (withCode room verb).result <;> rfl

/-! ## Rooms -/

/-- The constants of a room: those of the engine, of its resources and of its scripts. -/
def constantsOf (source : Source) (scripts : List Declarations) : List Constant :=
  Engine.constants ++ Registry.resourceConstants source ++ scripts.flatMap (·.constants)

/-- What a room has of its scripts. -/
def boundOf (source : Source) (scripts : List Declarations) : Bound :=
  .ofScripts (mergeColors source.palette source.objects source.costumes).objects scripts

/-- The names under which the functions of a room are compiled. -/
def scopeOf (source : Source) (scripts : List Declarations) : Scope :=
  .ofRoom (constantsOf source scripts) (boundOf source scripts).routines

/-- How a room is made of its sources and the scripts read from them. -/
structure Made (id : UInt8) (source : Source) (scripts : List Declarations)
    (room : RoomForge.Room) : Prop where
  read : List.Forall₂ (fun source script => parse source.text = .ok script) source.scripts scripts
  admissible : Admissible source.objects (scripts.flatMap (·.routines))
  distinct : ((constantsOf source scripts).map Constant.name).Nodup
  routines : (Report.each (withCodeUnlessInlined (scopeOf source scripts))
    (boundOf source scripts).routines).result = .ok room.routines
  entry : (withCode (scopeOf source scripts) (boundOf source scripts).entry).result = .ok room.entry
  exit : (withCode (scopeOf source scripts) (boundOf source scripts).exit).result = .ok room.exit
  objects : (Report.each (withVerbCode (scopeOf source scripts))
    (boundOf source scripts).objects).result = .ok room.objects
  eq_room : room = { room with
    id
    name := source.name
    background := source.background
    masks := source.masks
    palette := (mergeColors source.palette source.objects source.costumes).palette
    boxes := source.boxes
    costumes := (mergeColors source.palette source.objects source.costumes).costumes
    constants := constantsOf source scripts
    warnings :=
      (mergeColors source.palette source.objects source.costumes).overflow.toList ++
        (boundOf source scripts).warnings }

theorem result_assemble (id : UInt8) (source : Source) :
    (assemble id source).result = (do
      let registry ← (Registry.ofResources source).result
      let merged := mergeColors source.palette source.objects source.costumes
      let bound ← (bindScripts source.name source.scripts merged.objects).result
      let registry ← registry.insertAll bound.constants
      let scope := Scope.ofRoom registry.entries.toList bound.routines
      let routines ← (Report.each (withCodeUnlessInlined scope) bound.routines).result
      let entry ← (withCode scope bound.entry).result
      let exit ← (withCode scope bound.exit).result
      let objects ← (Report.each (withVerbCode scope) bound.objects).result
      .ok {
        id
        name := source.name
        background := source.background
        masks := source.masks
        palette := merged.palette
        objects
        boxes := source.boxes
        costumes := merged.costumes
        constants := registry.entries.toList
        entry
        exit
        routines
        warnings := merged.overflow.toList ++ bound.warnings }) := by
  simp only [assemble, Report.result_bind, Report.result_say, ok_bind]
  cases (mergeColors source.palette source.objects source.costumes).overflow with
  | none =>
    simp only [Report.result_bind, Report.result_say, Report.result_pure, Report.result_ofExcept,
      result_compile, ok_bind, bind_assoc, Option.toList]
  | some warning =>
    simp only [warn, Report.result_bind, Report.result_say, Report.result_pure,
      Report.result_ofExcept, result_compile, ok_bind, bind_assoc, Option.toList]

/-- A room is accepted if its scripts can be read, its functions are admissible, no two of its
constants have the same name and all its code compiles. -/
theorem assemble_eq_ok_iff {id : UInt8} {source : Source} {room : RoomForge.Room} :
    (assemble id source).result = .ok room ↔ ∃ scripts, Made id source scripts room := by
  have hverbs : (mergeColors source.palette source.objects source.costumes).objects.map
      Object.verbName = source.objects.map Object.verbName :=
    map_mergeColors (fun _ _ => rfl) source
  rw [result_assemble, Registry.result_ofResources]
  simp only [bind_eq_ok_iff]
  constructor
  · rintro ⟨registry, hregistry, bound, hbound, after, hafter, routines, hroutines, entry, hentry,
      exit, hexit, objects, hobjects, hroom⟩
    have hall : Registry.insertAll {} ((Engine.constants ++ Registry.resourceConstants source) ++
        bound.constants) = .ok after := by
      rw [Registry.insertAll_append, hregistry]
      exact hafter
    obtain ⟨hentries, hdistinct⟩ := Registry.insertAll_ok (by simp) hall
    rw [Array.toList_empty, List.nil_append] at hentries
    rw [hentries] at hdistinct hroutines hentry hexit hobjects hroom
    have hverbsDistinct : ((mergeColors source.palette source.objects source.costumes).objects.map
        Object.verbName).Nodup := hverbs ▸ nodup_verbNames (nodup_map_of_append hdistinct)
    obtain ⟨scripts, hread, hadmissible, rfl⟩ := (bindScripts_eq_ok_iff hverbsDistinct).mp hbound
    obtain rfl := Except.ok.inj hroom
    exact ⟨scripts, hread, hadmissible.congr hverbs, hdistinct, hroutines, hentry, hexit, hobjects,
      rfl⟩
  · rintro ⟨scripts, h⟩
    have hresources := nodup_map_of_append h.distinct
    have hverbsDistinct : ((mergeColors source.palette source.objects source.costumes).objects.map
        Object.verbName).Nodup := hverbs ▸ nodup_verbNames hresources
    obtain ⟨after, hall⟩ :
        ∃ after, Registry.insertAll {} (constantsOf source scripts) = .ok after :=
      Registry.exists_insertAll {} h.distinct
    have hentries := (Registry.insertAll_ok (by simp) hall).1
    rw [Array.toList_empty, List.nil_append] at hentries
    rw [constantsOf, Registry.insertAll_append, bind_eq_ok_iff] at hall
    obtain ⟨registry, hregistry, hafter⟩ := hall
    refine ⟨registry, hregistry, boundOf source scripts, ?_, after, hafter, room.routines, ?_,
      room.entry, ?_, room.exit, ?_, room.objects, ?_, ?_⟩
    · exact (bindScripts_eq_ok_iff hverbsDistinct).mpr
        ⟨scripts, h.read, h.admissible.congr hverbs.symm, rfl⟩
    all_goals rw [hentries]
    · exact h.routines
    · exact h.entry
    · exact h.exit
    · exact h.objects
    · exact congrArg Except.ok h.eq_room.symm

/-- The functions of a room that are compiled: all but the inlined ones. -/
def codedOf (source : Source) (scripts : List Declarations) : List Routine :=
  let bound := boundOf source scripts
  bound.routines.filter (fun routine => !routine.isInlined) ++ [bound.entry, bound.exit] ++
    bound.objects.filterMap (·.verb)

/-- A room can be made once each of its functions compiles. -/
theorem exists_made {id : UInt8} {source : Source} {scripts : List Declarations}
    (hread : List.Forall₂ (fun source script => parse source.text = .ok script) source.scripts
      scripts)
    (hadmissible : Admissible source.objects (scripts.flatMap (·.routines)))
    (hdistinct : ((constantsOf source scripts).map Constant.name).Nodup)
    (hcode : ∀ routine ∈ codedOf source scripts, ∃ compiled,
      (withCode (scopeOf source scripts) routine).result = .ok compiled) :
    ∃ room, Made id source scripts room := by
  simp only [codedOf, List.mem_append, List.mem_filter, List.mem_cons, List.not_mem_nil, or_false,
    List.mem_filterMap, Bool.not_eq_true'] at hcode
  obtain ⟨entry, hentry⟩ := hcode _ (.inl (.inr (.inl rfl)))
  obtain ⟨exit, hexit⟩ := hcode _ (.inl (.inr (.inr rfl)))
  have hroutine : ∀ routine ∈ (boundOf source scripts).routines, ∃ compiled,
      (withCodeUnlessInlined (scopeOf source scripts) routine).result = .ok compiled := by
    intro routine hroutine
    unfold withCodeUnlessInlined
    split
    · exact ⟨routine, rfl⟩
    · next hnormal => exact hcode routine (.inl (.inl ⟨hroutine, by simpa using hnormal⟩))
  have hobject : ∀ object ∈ (boundOf source scripts).objects, ∃ compiled,
      (withVerbCode (scopeOf source scripts) object).result = .ok compiled := by
    intro object hobject
    unfold withVerbCode
    split
    · exact ⟨object, rfl⟩
    · next verb hverb =>
      obtain ⟨compiled, hcompiled⟩ := hcode verb (.inr ⟨object, hobject, hverb⟩)
      refine ⟨{ object with verb := some compiled }, ?_⟩
      rw [Report.result_bind, hcompiled, ok_bind]
      rfl
  obtain ⟨routines, hroutines⟩ := exists_forall₂ hroutine
  obtain ⟨objects, hobjects⟩ := exists_forall₂ hobject
  exact ⟨{
    id
    name := source.name
    background := source.background
    masks := source.masks
    palette := (mergeColors source.palette source.objects source.costumes).palette
    objects
    boxes := source.boxes
    costumes := (mergeColors source.palette source.objects source.costumes).costumes
    constants := constantsOf source scripts
    entry
    exit
    routines
    warnings :=
      (mergeColors source.palette source.objects source.costumes).overflow.toList ++
        (boundOf source scripts).warnings },
    hread, hadmissible, hdistinct, Report.result_each_eq_ok_iff.mpr hroutines, hentry, hexit,
    Report.result_each_eq_ok_iff.mpr hobjects, rfl⟩

theorem Made.exists_code {id : UInt8} {source : Source} {scripts : List Declarations}
    {room : RoomForge.Room} (h : Made id source scripts room) {routine : Routine}
    (hroutine : routine ∈ codedOf source scripts) :
    ∃ compiled, (withCode (scopeOf source scripts) routine).result = .ok compiled := by
  simp only [codedOf, List.mem_append, List.mem_filter, List.mem_cons, List.not_mem_nil, or_false,
    List.mem_filterMap, Bool.not_eq_true'] at hroutine
  rcases hroutine with (⟨hmem, hinlined⟩ | rfl | rfl) | ⟨object, hobject, hverb⟩
  · obtain ⟨compiled, -, hcompiled⟩ :=
      exists_left_of_forall₂ (Report.result_each_eq_ok_iff.mp h.routines).flip hmem
    rw [withCodeUnlessInlined, hinlined, if_neg (by simp)] at hcompiled
    exact ⟨compiled, hcompiled⟩
  · exact ⟨room.entry, h.entry⟩
  · exact ⟨room.exit, h.exit⟩
  · obtain ⟨_, -, hcompiled⟩ :=
      exists_left_of_forall₂ (Report.result_each_eq_ok_iff.mp h.objects).flip hobject
    rw [withVerbCode, hverb] at hcompiled
    simp only [Report.result_bind, bind_eq_ok_iff] at hcompiled
    obtain ⟨compiled, hcompiled, -⟩ := hcompiled
    exact ⟨compiled, hcompiled⟩

/-- A session that has a number left accepts the rooms that can be made. -/
theorem Session.compile_eq_ok_iff {session : Session} {source : Source} {room : RoomForge.Room} :
    (session.compile source).2.result = .ok room ↔
      session.next ≠ 0 ∧ ∃ scripts, Made session.next source scripts room := by
  rw [← assemble_eq_ok_iff, compile]
  split
  · next hnext => simp [hnext, Report.fail]
  · next hnext => simp [hnext]

/-- The names under which the functions of a room are compiled. -/
def scope (room : RoomForge.Room) : Scope :=
  .ofRoom room.constants (room.routines.map Routine.uncompiled)

theorem routines_scope (room : RoomForge.Room) :
    room.scope.routines = room.routines.map Routine.uncompiled := by
  simp [scope, Scope.ofRoom, Scope.routines]

namespace Made

variable {id : UInt8} {source : Source} {scripts : List Declarations} {room : RoomForge.Room}

theorem isWritten (h : Made id source scripts room) :
    ∀ routine ∈ scripts.flatMap (·.routines), routine.IsWritten := by
  intro routine hroutine
  obtain ⟨script, hscript, hmem⟩ := List.mem_flatMap.mp hroutine
  obtain ⟨_, -, hparse⟩ := exists_left_of_forall₂ h.read hscript
  exact isWritten_of_parse hparse routine hmem

theorem verbs_eq (source : Source) :
    (mergeColors source.palette source.objects source.costumes).objects.map Object.verbName =
      source.objects.map Object.verbName :=
  map_mergeColors (fun _ _ => rfl) source

theorem bound_routines (source : Source) (scripts : List Declarations) :
    (boundOf source scripts).routines =
      numberFrom firstNumber (freeOf source.objects (scripts.flatMap (·.routines))) := by
  rw [← freeOf_congr (verbs_eq source)]
  rfl

theorem code_of_mem_bound (h : Made id source scripts room) {routine : Routine}
    (hroutine : routine ∈ (boundOf source scripts).routines) : routine.code = none := by
  have hcode := List.mem_map_of_mem (f := Routine.code) hroutine
  rw [bound_routines, map_numberFrom (fun _ _ => rfl)] at hcode
  obtain ⟨declared, hdeclared, hsame⟩ := List.mem_map.mp hcode
  have hwritten := h.isWritten declared (List.mem_of_mem_filter hdeclared)
  exact hsame.symm.trans hwritten.code

/-- The functions of a room are those of its scripts that have no role of their own, numbered. -/
theorem uncompiled_routines (h : Made id source scripts room) :
    room.routines.map Routine.uncompiled =
      numberFrom firstNumber (freeOf source.objects (scripts.flatMap (·.routines))) := by
  rw [← bound_routines, ← map_eq_map_of_forall₂ (Report.result_each_eq_ok_iff.mp h.routines)
    fun _ _ => uncompiled_of_withCodeUnlessInlined]
  conv_rhs => rw [← List.map_id (boundOf source scripts).routines]
  apply List.map_congr_left
  intro routine hroutine
  exact Routine.uncompiled_eq_self (h.code_of_mem_bound hroutine)

theorem scope_eq (h : Made id source scripts room) : scopeOf source scripts = room.scope := by
  have hconstants : room.constants = constantsOf source scripts := by
    rw [h.eq_room]
  rw [scopeOf, bound_routines, scope, h.uncompiled_routines, hconstants]

/-- Each object of a room has its verb, with code. -/
theorem forall₂_objects (h : Made id source scripts room) :
    List.Forall₂ (fun object compiled => ∃ verb,
        (withCode (scopeOf source scripts)
          (verbOf (scripts.flatMap (·.routines)) object)).result = .ok verb ∧
        compiled = { object with verb := some verb })
      (mergeColors source.palette source.objects source.costumes).objects room.objects := by
  have hobjects := Report.result_each_eq_ok_iff.mp h.objects
  rw [boundOf, Bound.ofScripts, List.forall₂_map_left_iff] at hobjects
  refine hobjects.imp fun object compiled hcompiled => ?_
  rw [result_withVerbCode, map_eq_ok_iff] at hcompiled
  obtain ⟨verb, hverb, hsame⟩ := hcompiled
  exact ⟨verb, hverb, hsame.symm⟩

theorem verbNames_eq (h : Made id source scripts room) :
    room.objects.map Object.verbName = source.objects.map Object.verbName := by
  rw [← verbs_eq source]
  refine (map_eq_map_of_forall₂ h.forall₂_objects ?_).symm
  rintro object _ ⟨verb, -, rfl⟩
  rfl

theorem ofName_eq_free (h : Made id source scripts room) {routine : Routine}
    (hroutine : routine ∈ room.routines) : Role.ofName routine.name room.objects = .free := by
  have hname : routine.name ∈ (room.routines.map Routine.uncompiled).map Routine.name := by
    rw [List.map_map]
    exact List.mem_map_of_mem hroutine
  rw [h.uncompiled_routines, map_numberFrom (fun _ _ => rfl)] at hname
  obtain ⟨declared, hdeclared, hsame⟩ := List.mem_map.mp hname
  rw [Role.ofName_congr h.verbNames_eq, ← hsame]
  simpa using (List.mem_filter.mp hdeclared).2

end Made

end RoomForge.Room
