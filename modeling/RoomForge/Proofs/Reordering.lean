import Mathlib.Data.List.Perm.Basic
import RoomForge.Proofs.Assembly
import RoomForge.Proofs.CallSites

set_option autoImplicit false

/-! # The order of scripts

The scripts of a room can be read in any order. Whether the room is accepted does not depend on it,
and of what an accepted room is, only the order of its functions and constants and the numbers of
its functions do, in their places and in the code that starts them (specification, section 4.3,
where numbers go by the order of the manifest): `script_order_changes_numbers_only`.

Code is compared in two ways at once. Instruction by instruction, nothing but the operands of
started scripts differs. And call by call, in the order of the code, each of these operands is the
number that the function called has in its room, the two functions being those of the same name.
-/

namespace RoomForge

/-- Where no two items have the same name, the order does not matter for looking a name up. -/
theorem find?_eq_of_perm {α β : Type} [BEq β] [LawfulBEq β] {name : α → β} {items items' : List α}
    (hdistinct : (items.map name).Nodup) (h : items'.Perm items) (key : β) :
    (items'.find? fun item => name item == key) = items.find? fun item => name item == key := by
  have hdistinct' : (items'.map name).Nodup := (h.map name).nodup_iff.mpr hdistinct
  apply Option.ext
  intro item
  rw [find?_eq_some_iff_of_nodup hdistinct, find?_eq_some_iff_of_nodup hdistinct', h.mem_iff]

theorem rel_or {α β : Type} {R : α → β → Prop} {first second : Option α}
    {first' second' : Option β} (hfirst : Option.Rel R first first')
    (hsecond : Option.Rel R second second') :
    Option.Rel R (first.or second) (first'.or second') := by
  cases hfirst with
  | none => exact hsecond
  | some h => exact .some h

end RoomForge

namespace RoomForge.Room

open RoomForge.Code RoomForge.Script

/-! ## What the order of scripts changes -/

/-- Two numbers belong to functions of the same name. -/
def SharedName (routines routines' : List Routine) (number number' : UInt16) : Prop :=
  ∃ routine ∈ routines, ∃ routine' ∈ routines', routine.name = routine'.name ∧
    routine.number = some number ∧ routine'.number = some number'

/-- The code of a function of a room is that of the instructions. Their texts and scripts, in order,
are those of the mentions, each of which comes from its place in the function's body. -/
structure HasInstrs (room : RoomForge.Room) (routine : Routine) (instrs : List (Instr Nat))
    (mentions : List Mention) : Prop where
  code : ∃ locals code, compileListing room.scope routine = .ok ⟨instrs, locals⟩ ∧
    encode routine.name instrs = .ok code ∧ routine.code = some code
  body : ∃ last, StmtMentions room.scope (room.scope.push .function) routine.body mentions last
  marks_eq : marks instrs = mentions.map Mention.mark

/-- A call of a room by the name `name` is one of `callee`, which has the number `number` there. -/
def Calls (room : RoomForge.Room) (name : String) (callee : Routine) (number : UInt16) : Prop :=
  ∃ routine ∈ room.routines, routine.name = name ∧ routine.uncompiled = callee ∧
    routine.number = some number

/-- The same text, or a call by the same name of the function that has this name in either room. -/
inductive MentionsAlike (room room' : RoomForge.Room) : Mention → Mention → Prop where
  | text (literal : String) : MentionsAlike room room' (.text literal) (.text literal)
  | start {name : String} {callee callee' : Routine} {number number' : UInt16}
      (hcall : room.Calls name callee number) (hcall' : room'.Calls name callee' number')
      (htwins : Twins (SharedName room.routines room'.routines) callee callee') :
      MentionsAlike room room' (.start name callee number) (.start name callee' number')

/-- Functions that were written alike. -/
structure SameText (routine routine' : Routine) : Prop where
  name_eq : routine.name = routine'.name
  kind_eq : routine.kind = routine'.kind
  body_eq : routine.body = routine'.body
  line_eq : routine.line = routine'.line

/-- Functions of two rooms with the same text, and with the same code but for the numbers of the
scripts that it starts. Each of those is the number that the callee of its call has in either
room. -/
structure Renumbered (room room' : RoomForge.Room) (routine routine' : Routine) : Prop where
  text : SameText routine routine'
  code : ∃ instrs instrs' mentions mentions', room.HasInstrs routine instrs mentions ∧
    room'.HasInstrs routine' instrs' mentions' ∧
    CodeAlike (SharedName room.routines room'.routines) instrs instrs' ∧
    List.Forall₂ (MentionsAlike room room') mentions mentions'

/-- Rooms that are the same but for the order of what their scripts declare and the numbers that go
by it. -/
structure DiffersInNumbers (room room' : RoomForge.Room) : Prop where
  rest : room' = { room with
    constants := room'.constants
    entry := room'.entry
    exit := room'.exit
    objects := room'.objects
    routines := room'.routines }
  constants : room'.constants.Perm room.constants
  entry : Renumbered room room' room.entry room'.entry
  exit : Renumbered room room' room.exit room'.exit
  objects : List.Forall₂ (fun object object' => ∃ verb verb', object.verb = some verb ∧
    object' = { object with verb := some verb' } ∧ Renumbered room room' verb verb')
    room.objects room'.objects
  /-- The functions of their own are the same by name. -/
  names : (room'.routines.map Routine.name).Perm (room.routines.map Routine.name)
  routines : ∀ routine ∈ room.routines, ∀ routine' ∈ room'.routines, routine.name = routine'.name →
    if routine.isInlined then
      SameText routine routine' ∧ routine.code = none ∧ routine'.code = none
    else Renumbered room room' routine routine'

/-! ## Reading scripts in another order -/

theorem exists_perm_of_read {texts texts' : List ScriptSource} {scripts : List Declarations}
    (hread : List.Forall₂ (fun text script => parse text.text = .ok script) texts scripts)
    (h : texts'.Perm texts) :
    ∃ scripts', List.Forall₂ (fun text script => parse text.text = .ok script) texts' scripts' ∧
      scripts'.Perm scripts :=
  List.perm_comp_forall₂ h hread

section

variable {source : Source} {scripts scripts' : List Declarations}

theorem perm_routines (h : scripts'.Perm scripts) :
    (scripts'.flatMap (·.routines)).Perm (scripts.flatMap (·.routines)) :=
  h.flatMap_right _

theorem constantsOf_perm (source : Source) (h : scripts'.Perm scripts) :
    (constantsOf source scripts').Perm (constantsOf source scripts) :=
  (h.flatMap_right _).append_left _

theorem Admissible.perm {objects : List Object} {declared declared' : List Routine}
    (hadmissible : Admissible objects declared) (h : declared'.Perm declared) :
    Admissible objects declared' := by
  refine ⟨(h.map _).nodup_iff.mpr hadmissible.distinct, ?_, ?_⟩
  · intro routine hroutine
    exact hadmissible.reserved routine (h.mem_iff.mp hroutine)
  · rw [numberedCount, freeOf, (h.filter _).countP_eq]
    exact hadmissible.countable

theorem named?_perm (hadmissible : Admissible source.objects (scripts.flatMap (·.routines)))
    (h : scripts'.Perm scripts) (name : String) :
    named? (scripts'.flatMap (·.routines)) name = named? (scripts.flatMap (·.routines)) name :=
  find?_eq_of_perm hadmissible.distinct (perm_routines h) name

/-- The order of scripts changes nothing of what a room has of them but the order and the numbers of
its functions and the order of its constants. -/
theorem boundOf_perm (hadmissible : Admissible source.objects (scripts.flatMap (·.routines)))
    (h : scripts'.Perm scripts) :
    boundOf source scripts' = { boundOf source scripts with
      constants := (boundOf source scripts').constants
      routines := (boundOf source scripts').routines } := by
  have hempty : scripts'.isEmpty = scripts.isEmpty := h.isEmpty_eq
  simp only [boundOf, Bound.ofScripts, verbOf, missing, named?_perm hadmissible h, hempty]

theorem names_perm (source : Source) (h : scripts'.Perm scripts) :
    ((boundOf source scripts').routines.map Routine.name).Perm
      ((boundOf source scripts).routines.map Routine.name) := by
  rw [Made.bound_routines, Made.bound_routines, map_numberFrom (fun _ _ => rfl),
    map_numberFrom (fun _ _ => rfl)]
  exact ((perm_routines h).filter _).map _

end

/-! ## The names of a room whose scripts are in another order -/

theorem resolve?_ofRoom (constants : List Constant) (routines : List Routine) (name : String) :
    (Scope.ofRoom constants routines).resolve? name =
      ((constants.reverse.find? fun constant => constant.name == name).map
          fun constant => Meaning.constant constant.value).or
        (((routines.find? fun routine => routine.name == name).map Meaning.routine).or
          (Scope.resolve? [] name)) := by
  have hconstants := NameTable.find?_eq
    (.ofList constants.reverse : NameTable Constant Constant.name) name
  have hroutines := NameTable.find?_eq (.ofList routines : NameTable Routine Routine.name) name
  rw [NameTable.entries_ofList] at hconstants hroutines
  rw [← hconstants, ← hroutines, Scope.ofRoom]
  cases hconstant : NameTable.find?
      (.ofList constants.reverse : NameTable Constant Constant.name) name with
  | some constant => simp [Scope.resolve?, Frame.find?, hconstant]
  | none =>
    cases hroutine : NameTable.find? (.ofList routines : NameTable Routine Routine.name) name with
    | some routine => simp [Scope.resolve?, Frame.find?, hconstant, hroutine]
    | none => simp [Scope.resolve?, Frame.find?, hconstant, hroutine]

theorem resolve?_engine (numbers : UInt16 → UInt16 → Prop) (name : String) :
    Option.Rel (Meaning.Alike numbers) (Scope.resolve? [] name) (Scope.resolve? [] name) := by
  rw [Scope.resolve?]
  split
  · exact .some (.global _)
  · cases Engine.builtin? name with
    | none => exact .none
    | some builtin => exact .some (.builtin builtin)

theorem mem_of_named? {declared : List Routine} {name : String} {routine : Routine}
    (h : named? declared name = some routine) : routine ∈ declared ∧ routine.name = name :=
  ⟨List.mem_of_find?_eq_some h, by simpa using List.find?_some h⟩

theorem name_of_numbered {declared routine : Routine}
    (h : if declared.isInlined then routine = declared
      else ∃ number, routine = { declared with number := some number }) :
    routine.name = declared.name := by
  split at h
  · rw [h]
  · obtain ⟨number, rfl⟩ := h
    rfl

namespace Made

variable {id : UInt8} {source : Source} {scripts scripts' : List Declarations}
  {room : RoomForge.Room}

/-- Functions of the same name are the same but for their numbers, whatever the order of scripts. -/
theorem sameText_and_twins (h : Made id source scripts room) (hperm : scripts'.Perm scripts)
    {routine routine' : Routine} (hroutine : routine ∈ (boundOf source scripts).routines)
    (hroutine' : routine' ∈ (boundOf source scripts').routines)
    (hname : routine.name = routine'.name) :
    SameText routine routine' ∧ Twins (SharedName (boundOf source scripts).routines
      (boundOf source scripts').routines) routine routine' := by
  have hmem := hroutine
  have hmem' := hroutine'
  rw [bound_routines] at hmem hmem'
  obtain ⟨declared, hdeclared, hnumbered⟩ := exists_of_mem_numberFrom hmem
  obtain ⟨declared', hdeclared', hnumbered'⟩ := exists_of_mem_numberFrom hmem'
  have hsame : declared = declared' := by
    have hmember := (perm_routines hperm).mem_iff.mp (List.mem_of_mem_filter hdeclared')
    refine List.inj_on_of_nodup_map h.admissible.distinct (List.mem_of_mem_filter hdeclared)
      hmember ?_
    rw [← name_of_numbered hnumbered, ← name_of_numbered hnumbered', hname]
  subst hsame
  cases hinlined : declared.isInlined with
  | true =>
    rw [if_pos hinlined] at hnumbered hnumbered'
    have hnone := (h.isWritten declared (List.mem_of_mem_filter hdeclared)).number
    subst hnumbered hnumbered'
    exact ⟨⟨rfl, rfl, rfl, rfl⟩, rfl, rfl, rfl, hnone ▸ .none⟩
  | false =>
    rw [if_neg (by simp [hinlined])] at hnumbered hnumbered'
    obtain ⟨number, rfl⟩ := hnumbered
    obtain ⟨number', rfl⟩ := hnumbered'
    exact ⟨⟨rfl, rfl, rfl, rfl⟩, rfl, rfl, rfl,
      .some ⟨_, hroutine, _, hroutine', rfl, rfl, rfl⟩⟩

theorem find?_alike (h : Made id source scripts room) (hperm : scripts'.Perm scripts)
    (name : String) :
    Option.Rel (Twins (SharedName (boundOf source scripts).routines
        (boundOf source scripts').routines))
      ((boundOf source scripts).routines.find? fun routine => routine.name == name)
      ((boundOf source scripts').routines.find? fun routine => routine.name == name) := by
  have hnames : name ∈ (boundOf source scripts').routines.map Routine.name ↔
      name ∈ (boundOf source scripts).routines.map Routine.name := (names_perm source hperm).mem_iff
  change Option.Rel _ (named? _ name) (named? _ name)
  cases hfound : named? (boundOf source scripts).routines name with
  | none =>
    rw [named?_eq_none_iff.mpr (hnames.not.mpr (named?_eq_none_iff.mp hfound))]
    exact .none
  | some routine =>
    obtain ⟨hroutine, hname⟩ := mem_of_named? hfound
    cases hfound' : named? (boundOf source scripts').routines name with
    | none =>
      exact absurd (hname ▸ List.mem_map_of_mem hroutine)
        (hnames.not.mp (named?_eq_none_iff.mp hfound'))
    | some routine' =>
      obtain ⟨hroutine', hname'⟩ := mem_of_named? hfound'
      exact .some (h.sameText_and_twins hperm hroutine hroutine' (hname.trans hname'.symm)).2

theorem roomsAlike (h : Made id source scripts room) (hperm : scripts'.Perm scripts) :
    RoomsAlike (SharedName (boundOf source scripts).routines (boundOf source scripts').routines)
      (scopeOf source scripts) (scopeOf source scripts') := by
  constructor
  · intro name
    have hreverse : (constantsOf source scripts').reverse.Perm
        (constantsOf source scripts).reverse :=
      (List.reverse_perm _).trans ((constantsOf_perm source hperm).trans (List.reverse_perm _).symm)
    have hdistinct : ((constantsOf source scripts).reverse.map Constant.name).Nodup := by
      rw [List.map_reverse, List.nodup_reverse]
      exact h.distinct
    rw [scopeOf, scopeOf, resolve?_ofRoom, resolve?_ofRoom, find?_eq_of_perm hdistinct hreverse]
    refine rel_or ?_ (rel_or ?_ (resolve?_engine _ name))
    · cases (constantsOf source scripts).reverse.find? fun constant => constant.name == name with
      | none => exact .none
      | some constant => exact .some (.constant constant.value)
    · have hfind := h.find?_alike hperm name
      generalize (boundOf source scripts).routines.find? (fun routine => routine.name == name) =
        found at hfind
      generalize (boundOf source scripts').routines.find? (fun routine => routine.name == name) =
        found' at hfind
      cases hfind with
      | none => exact .none
      | some htwins => exact .some (.routine htwins)
  · rfl
  · have hlength := (names_perm source hperm).length_eq
    simpa [scopeOf, Scope.ofRoom, Scope.routines] using hlength.symm

/-! ## Accepting scripts in another order -/

/-- Each function that is compiled has its counterpart in every order of the scripts. -/
theorem exists_coded (h : Made id source scripts room) (hperm : scripts'.Perm scripts)
    {routine' : Routine} (hroutine' : routine' ∈ codedOf source scripts') :
    ∃ routine ∈ codedOf source scripts, routine.name = routine'.name ∧
      routine.body = routine'.body := by
  have hbound := boundOf_perm h.admissible hperm
  simp only [codedOf, List.mem_append, List.mem_filter, List.mem_cons, List.not_mem_nil, or_false,
    List.mem_filterMap, Bool.not_eq_true'] at hroutine' ⊢
  rcases hroutine' with (⟨hmem', hinlined'⟩ | rfl | rfl) | hverb
  · have hname := (names_perm source hperm).mem_iff.mp (List.mem_map_of_mem hmem')
    obtain ⟨routine, hmem, hname⟩ := List.mem_map.mp hname
    obtain ⟨htext, -⟩ := h.sameText_and_twins hperm hmem hmem' hname
    have hinlined : routine.isInlined = false := by
      rw [Routine.isInlined, htext.kind_eq]
      exact hinlined'
    exact ⟨routine, .inl (.inl ⟨hmem, hinlined⟩), hname, htext.body_eq⟩
  · rw [hbound]
    exact ⟨_, .inl (.inr (.inl rfl)), rfl, rfl⟩
  · rw [hbound]
    exact ⟨_, .inl (.inr (.inr rfl)), rfl, rfl⟩
  · rw [hbound] at hverb
    exact ⟨routine', .inr hverb, rfl, rfl⟩

theorem exists_reordered (h : Made id source scripts room) {texts : List ScriptSource}
    (htexts : texts.Perm source.scripts) :
    ∃ scripts' room', Made id { source with scripts := texts } scripts' room' := by
  obtain ⟨scripts', hread, hperm⟩ := exists_perm_of_read h.read htexts
  have hrooms := h.roomsAlike hperm
  refine ⟨scripts', exists_made hread (h.admissible.perm (perm_routines hperm))
    (((constantsOf_perm source hperm).map _).nodup_iff.mpr h.distinct) ?_⟩
  intro routine' hroutine'
  obtain ⟨routine, hroutine, hname, hbody⟩ := h.exists_coded hperm hroutine'
  obtain ⟨compiled, hcompiled⟩ := h.exists_code hroutine
  obtain ⟨listing, code, hlisting, hcode, -⟩ := withCode_eq_ok_iff.mp hcompiled
  obtain ⟨listing', hlisting', halike⟩ :=
    (compileListing_alike hrooms hname hbody).exists_ok hlisting
  obtain ⟨code', hcode', -⟩ := (encode_alike halike.instrs routine.name).exists_ok hcode
  rw [hname] at hcode'
  exact ⟨_, withCode_eq_ok_iff.mpr ⟨listing', code', hlisting', hcode', rfl⟩⟩

end Made

/-! ## Comparing rooms -/

theorem SameText.refl (routine : Routine) : SameText routine routine :=
  ⟨rfl, rfl, rfl, rfl⟩

theorem calls_of_start {room : RoomForge.Room} {name : String} {callee : Routine} {number : UInt16}
    {literals : List String} (h : (Mention.start name callee number).From room.scope literals) :
    room.Calls name callee number := by
  obtain ⟨hcallee, hname, -, hnumber⟩ := h
  rw [routines_scope, List.mem_map] at hcallee
  obtain ⟨routine, hmem, rfl⟩ := hcallee
  exact ⟨routine, hmem, hname, rfl, hnumber⟩

/-- What a body mentions in two rooms is told apart by the numbers of callees alone. -/
theorem mentionsAlike_of_body {room room' : RoomForge.Room}
    (hrooms : RoomsAlike (SharedName room.routines room'.routines) room.scope room'.scope)
    {body : Stmt} {mentions mentions' : List Mention} {last last' : Scope}
    (h : StmtMentions room.scope (room.scope.push .function) body mentions last)
    (h' : StmtMentions room'.scope (room'.scope.push .function) body mentions' last') :
    List.Forall₂ (MentionsAlike room room') mentions mentions' := by
  have halike := (h.alike hrooms (.rooms _ _ .function) h').1
  have hfrom := fun mention (hmem : mention ∈ mentions) => h.from_room (by simp) hmem
  have hfrom' := fun mention (hmem : mention ∈ mentions') => h'.from_room (by simp) hmem
  clear h h'
  induction halike with
  | nil => exact .nil
  | @cons mention mention' _ _ hfirst _ ih =>
    refine .cons ?_ (ih (fun other hother => hfrom other (List.mem_cons_of_mem _ hother))
      fun other hother => hfrom' other (List.mem_cons_of_mem _ hother))
    have hhere := hfrom mention List.mem_cons_self
    have hhere' := hfrom' mention' List.mem_cons_self
    cases hfirst with
    | text literal => exact .text literal
    | start htwins => exact .start (calls_of_start hhere) (calls_of_start hhere') htwins

/-- Compiling functions with the same text in two rooms gives functions that differ in numbers. -/
theorem renumbered_of_withCode {room room' : RoomForge.Room}
    (hrooms : RoomsAlike (SharedName room.routines room'.routines) room.scope room'.scope)
    {routine routine' compiled compiled' : Routine} (htext : SameText routine routine')
    (h : (withCode room.scope routine).result = .ok compiled)
    (h' : (withCode room'.scope routine').result = .ok compiled') :
    Renumbered room room' compiled compiled' := by
  obtain ⟨listing, code, hlisting, hcode, rfl⟩ := withCode_eq_ok_iff.mp h
  obtain ⟨listing', code', hlisting', hcode', rfl⟩ := withCode_eq_ok_iff.mp h'
  obtain ⟨found, hfound, halike⟩ :=
    (compileListing_alike hrooms htext.name_eq htext.body_eq).exists_ok hlisting
  obtain rfl := Except.ok.inj (hlisting'.symm.trans hfound)
  obtain ⟨mentions, last, hbody, hmarks⟩ := compileListing_mentions hlisting
  obtain ⟨mentions', last', hbody', hmarks'⟩ := compileListing_mentions hlisting'
  have hmentions := mentionsAlike_of_body hrooms hbody (htext.body_eq ▸ hbody')
  exact ⟨⟨htext.name_eq, htext.kind_eq, htext.body_eq, htext.line_eq⟩, listing.instrs,
    listing'.instrs, mentions, mentions',
    ⟨⟨listing.locals, code, hlisting, hcode, rfl⟩, ⟨last, hbody⟩, hmarks⟩,
    ⟨⟨listing'.locals, code', hlisting', hcode', rfl⟩, ⟨last', hbody'⟩, hmarks'⟩,
    halike.instrs, hmentions⟩

theorem sharedName_uncompiled (routines routines' : List Routine) :
    SharedName (routines.map Routine.uncompiled) (routines'.map Routine.uncompiled) =
      SharedName routines routines' := by
  funext number number'
  simp [SharedName, Routine.uncompiled]

namespace Made

variable {id : UInt8} {source : Source} {texts : List ScriptSource}
  {scripts scripts' : List Declarations} {room room' : RoomForge.Room}

theorem bound_eq_uncompiled (h : Made id source scripts room) :
    (boundOf source scripts).routines = room.routines.map Routine.uncompiled := by
  rw [h.uncompiled_routines, bound_routines]

theorem perm_scripts (h : Made id source scripts room)
    (h' : Made id { source with scripts := texts } scripts' room')
    (htexts : texts.Perm source.scripts) : scripts'.Perm scripts := by
  obtain ⟨found, hread, hperm⟩ := exists_perm_of_read h.read htexts
  obtain rfl : scripts' = found :=
    Except.ok.inj ((mapM_eq_ok_iff.mpr h'.read).symm.trans (mapM_eq_ok_iff.mpr hread))
  exact hperm

theorem roomsAlike_scope (h : Made id source scripts room)
    (h' : Made id { source with scripts := texts } scripts' room') (hperm : scripts'.Perm scripts) :
    RoomsAlike (SharedName room.routines room'.routines) room.scope room'.scope := by
  rw [← sharedName_uncompiled, ← h.bound_eq_uncompiled, ← h'.bound_eq_uncompiled, ← h.scope_eq,
    ← h'.scope_eq]
  exact h.roomsAlike hperm

theorem rest_eq (h : Made id source scripts room)
    (h' : Made id { source with scripts := texts } scripts' room') (hperm : scripts'.Perm scripts) :
    room' = { room with
      constants := room'.constants
      entry := room'.entry
      exit := room'.exit
      objects := room'.objects
      routines := room'.routines } := by
  have hwarnings : (boundOf { source with scripts := texts } scripts').warnings =
      (boundOf source scripts).warnings := by
    change (boundOf source scripts').warnings = _
    rw [boundOf_perm h.admissible hperm]
  rw [h'.eq_room, h.eq_room, hwarnings]

theorem perm_constants (h : Made id source scripts room)
    (h' : Made id { source with scripts := texts } scripts' room') (hperm : scripts'.Perm scripts) :
    room'.constants.Perm room.constants := by
  rw [h'.eq_room, h.eq_room]
  exact constantsOf_perm source hperm

theorem renumbered_objects (h : Made id source scripts room)
    (h' : Made id { source with scripts := texts } scripts' room') (hperm : scripts'.Perm scripts) :
    List.Forall₂ (fun object object' => ∃ verb verb', object.verb = some verb ∧
      object' = { object with verb := some verb' } ∧ Renumbered room room' verb verb')
      room.objects room'.objects := by
  have hrooms := h.roomsAlike_scope h' hperm
  have hobjects := h.forall₂_objects
  have hobjects' := h'.forall₂_objects
  rw [h.scope_eq] at hobjects
  rw [h'.scope_eq] at hobjects'
  refine forall₂_of_common hobjects hobjects' ?_
  rintro object _ _ ⟨verb, hverb, rfl⟩ ⟨verb', hverb', rfl⟩
  rw [verbOf, named?_perm h.admissible hperm, ← verbOf] at hverb'
  exact ⟨verb, verb', rfl, rfl, renumbered_of_withCode hrooms (.refl _) hverb hverb'⟩

theorem perm_names (h : Made id source scripts room)
    (h' : Made id { source with scripts := texts } scripts' room') (hperm : scripts'.Perm scripts) :
    (room'.routines.map Routine.name).Perm (room.routines.map Routine.name) := by
  have hbound' : (boundOf source scripts').routines = room'.routines.map Routine.uncompiled :=
    h'.bound_eq_uncompiled
  have hnames := names_perm source hperm
  rw [hbound', h.bound_eq_uncompiled, List.map_map, List.map_map] at hnames
  exact hnames

/-- What a function of a room was before it was compiled. -/
theorem exists_bound (h : Made id source scripts room) {routine : Routine}
    (hroutine : routine ∈ room.routines) :
    ∃ original ∈ (boundOf source scripts).routines, original = routine.uncompiled ∧
      if routine.isInlined then routine.code = none
      else (withCode room.scope original).result = .ok routine := by
  obtain ⟨original, horiginal, hcompiled⟩ :=
    exists_left_of_forall₂ (Report.result_each_eq_ok_iff.mp h.routines) hroutine
  have hcode := h.code_of_mem_bound horiginal
  have hsame : original = routine.uncompiled :=
    (Routine.uncompiled_eq_self hcode).symm.trans (uncompiled_of_withCodeUnlessInlined hcompiled)
  have hkind : original.isInlined = routine.isInlined := by
    rw [hsame]
    rfl
  refine ⟨original, horiginal, hsame, ?_⟩
  rw [withCodeUnlessInlined, hkind, h.scope_eq] at hcompiled
  split
  · next hinlined =>
    rw [if_pos hinlined] at hcompiled
    obtain rfl := Except.ok.inj hcompiled
    exact hcode
  · next hnormal => rwa [if_neg hnormal] at hcompiled

theorem renumbered_routines (h : Made id source scripts room)
    (h' : Made id { source with scripts := texts } scripts' room') (hperm : scripts'.Perm scripts)
    {routine routine' : Routine} (hroutine : routine ∈ room.routines)
    (hroutine' : routine' ∈ room'.routines) (hname : routine.name = routine'.name) :
    if routine.isInlined then SameText routine routine' ∧ routine.code = none ∧ routine'.code = none
    else Renumbered room room' routine routine' := by
  obtain ⟨original, horiginal, hsame, hcode⟩ := h.exists_bound hroutine
  obtain ⟨original', horiginal', hsame', hcode'⟩ := h'.exists_bound hroutine'
  have htext : SameText original original' :=
    (h.sameText_and_twins hperm horiginal horiginal' (by rw [hsame, hsame']; exact hname)).1
  have htexts : SameText routine routine' := by
    rw [hsame, hsame'] at htext
    exact ⟨htext.name_eq, htext.kind_eq, htext.body_eq, htext.line_eq⟩
  have hkind : routine'.isInlined = routine.isInlined := by
    rw [Routine.isInlined, Routine.isInlined, htexts.kind_eq]
  rw [hkind] at hcode'
  split
  · next hinlined =>
    rw [if_pos hinlined] at hcode hcode'
    exact ⟨htexts, hcode, hcode'⟩
  · next hnormal =>
    rw [if_neg hnormal] at hcode hcode'
    exact renumbered_of_withCode (h.roomsAlike_scope h' hperm) htext hcode hcode'

theorem differsInNumbers (h : Made id source scripts room)
    (h' : Made id { source with scripts := texts } scripts' room')
    (htexts : texts.Perm source.scripts) : DiffersInNumbers room room' := by
  have hperm := h.perm_scripts h' htexts
  have hrooms := h.roomsAlike_scope h' hperm
  have hbound := boundOf_perm h.admissible hperm
  have hentry : (withCode room'.scope (boundOf source scripts').entry).result = .ok room'.entry :=
    h'.scope_eq ▸ h'.entry
  have hexit : (withCode room'.scope (boundOf source scripts').exit).result = .ok room'.exit :=
    h'.scope_eq ▸ h'.exit
  rw [hbound] at hentry hexit
  exact {
    rest := h.rest_eq h' hperm
    constants := h.perm_constants h' hperm
    entry := renumbered_of_withCode hrooms (.refl _) (h.scope_eq ▸ h.entry) hentry
    exit := renumbered_of_withCode hrooms (.refl _) (h.scope_eq ▸ h.exit) hexit
    objects := h.renumbered_objects h' hperm
    names := h.perm_names h' hperm
    routines := fun _ hroutine _ hroutine' => h.renumbered_routines h' hperm hroutine hroutine' }

end Made

/-! ## Sessions -/

/-- Putting the scripts of a room in another order changes neither whether the room is accepted nor
what an accepted room is, but for the order of its functions and constants and for the numbers of
its functions. -/
theorem script_order_changes_numbers_only {session : Session} {source : Source}
    {texts : List ScriptSource} (h : texts.Perm source.scripts) :
    ((∃ room, (session.compile source).2.result = .ok room) ↔
      ∃ room, (session.compile { source with scripts := texts }).2.result = .ok room) ∧
    ∀ room room', (session.compile source).2.result = .ok room →
      (session.compile { source with scripts := texts }).2.result = .ok room' →
        DiffersInNumbers room room' := by
  simp only [Session.compile_eq_ok_iff]
  refine ⟨⟨?_, ?_⟩, ?_⟩
  · rintro ⟨room, hnext, scripts, hmade⟩
    obtain ⟨scripts', room', hmade'⟩ := hmade.exists_reordered h
    exact ⟨room', hnext, scripts', hmade'⟩
  · rintro ⟨room', hnext, scripts', hmade'⟩
    obtain ⟨scripts, room, hmade⟩ := hmade'.exists_reordered h.symm
    exact ⟨room, hnext, scripts, hmade⟩
  · rintro room room' ⟨-, scripts, hmade⟩ ⟨-, scripts', hmade'⟩
    exact hmade.differsInNumbers hmade' h

/-- A room whose entry, in the second script, starts a function of the first and expands another,
which starts one of the second again. -/
def workshop : Source where
  name := "workshop"
  background := .empty
  scripts := [⟨"saw", "function cut() \x7b knock(); \x7d
inline function ring() \x7b knock(); \x7d"⟩, ⟨"door", "const TIMES = 2;
function knock() \x7b \x7d
function entry() \x7b cut(); ring(); \x7d"⟩]

theorem workshop_in_either_order : ∃ room room',
    (Session.compile {} workshop).2.result = .ok room ∧
      (Session.compile {} { workshop with
        scripts := workshop.scripts.reverse }).2.result = .ok room' ∧
      room.routines.map (fun routine => (routine.name, routine.number)) =
        [("cut", some 200), ("ring", none), ("knock", some 201)] ∧
      room'.routines.map (fun routine => (routine.name, routine.number)) =
        [("knock", some 200), ("cut", some 201), ("ring", none)] ∧
      DiffersInNumbers room room' := by
  have hfirst : ((Session.compile {} workshop).2.result.toOption.any fun room =>
      room.routines.map (fun routine => (routine.name, routine.number)) =
        [("cut", some 200), ("ring", none), ("knock", some 201)]) = true := by decide +kernel
  have hsecond : ((Session.compile {} { workshop with
      scripts := workshop.scripts.reverse }).2.result.toOption.any fun room =>
      room.routines.map (fun routine => (routine.name, routine.number)) =
        [("knock", some 200), ("cut", some 201), ("ring", none)]) = true := by decide +kernel
  simp only [Option.any_eq_true, toOption_eq_some_iff, decide_eq_true_eq] at hfirst hsecond
  obtain ⟨room, hroom, hnumbers⟩ := hfirst
  obtain ⟨room', hroom', hnumbers'⟩ := hsecond
  have hperm : workshop.scripts.reverse.Perm workshop.scripts := List.reverse_perm _
  exact ⟨room, room', hroom, hroom', hnumbers, hnumbers',
    (script_order_changes_numbers_only hperm).2 room room' hroom hroom'⟩

end RoomForge.Room
