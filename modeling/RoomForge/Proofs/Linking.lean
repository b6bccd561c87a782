import RoomForge.Proofs.Assembly
import RoomForge.Proofs.GameFile
import RoomForge.Proofs.Mentions

set_option autoImplicit false

/-! # Scripts that are started

The functions of a room are numbered while its scripts are read, started by their numbers in code
that is compiled later, and written to the game file by a third pass (specification, sections 4.3
and 4.5). The passes agree: a number that code starts is that of a function which the room keeps and
the file holds. `started_scripts_are_in_the_room` ties each number in the code to the call it comes
from.
-/

namespace RoomForge.Room

open RoomForge.Code RoomForge.Resource RoomForge.Script

/-! ## Compiling the functions of a room -/

/-- The code of a function is what compiling it under the names of its room gives. -/
def Compiled (room : Scope) (routine : Routine) : Prop :=
  ∃ listing code, compileListing room routine = .ok listing ∧
    encode routine.name listing.instrs = .ok code ∧ routine.code = some code

theorem compiled_of_withCode {room : Scope} {routine compiled : Routine}
    (h : (withCode room routine).result = .ok compiled) : Compiled room compiled := by
  obtain ⟨listing, code, hlisting, hcode, rfl⟩ := withCode_eq_ok_iff.mp h
  exact ⟨listing, code, hlisting, hcode, rfl⟩

theorem compiled_of_withCodeUnlessInlined {room : Scope} {routine compiled : Routine}
    (h : (withCodeUnlessInlined room routine).result = .ok compiled)
    (hinlined : compiled.isInlined = false) : Compiled room compiled := by
  unfold withCodeUnlessInlined at h
  split at h
  · next hkind =>
    obtain rfl := Except.ok.inj h
    exact absurd hkind (by simp [hinlined])
  · exact compiled_of_withCode h

theorem withVerbCode_ok {room : Scope} {object compiled : Object}
    (h : (withVerbCode room object).result = .ok compiled) :
    object.verbName = compiled.verbName ∧ ∀ verb ∈ compiled.verb, Compiled room verb := by
  unfold withVerbCode at h
  split at h
  · next hnone =>
    obtain rfl := Except.ok.inj h
    exact ⟨rfl, fun verb hverb => absurd hverb (by simp [hnone])⟩
  · simp only [Report.result_bind, Report.result_pure, bind_eq_ok_iff] at h
    obtain ⟨verb, hverb, hobject⟩ := h
    obtain rfl := Except.ok.inj hobject
    refine ⟨rfl, fun other hother => ?_⟩
    obtain rfl := Option.some.inj hother
    exact compiled_of_withCode hverb

/-! ## Targets -/

/-- The functions of a room that have code: all but the inlined ones. -/
def compiled (room : RoomForge.Room) : List Routine :=
  room.routines.filter (fun routine => !routine.isInlined) ++ [room.entry, room.exit] ++
    room.objects.filterMap (·.verb)

/-- What a call that starts `callee` by the name `name` and the number `number` reaches: a function
of the room that is neither inlined nor an entry, an exit or a verb, and whose code is in the room's
block under that number. -/
structure IsTarget (room : RoomForge.Room) (name : String) (callee : Routine) (number : UInt16)
    (target : Routine) : Prop where
  mem : target ∈ room.routines
  eq_callee : target.uncompiled = callee
  named : target.name = name
  normal : target.isInlined = false
  numbered : target.number = some number
  free : Role.ofName target.name room.objects = .free
  written : ∃ code, target.code = some code ∧ ∀ block, (roomBlock room).result = .ok block →
    (leaf 'L' 'S' 'C' 'R' (Bytes.word number ++ code)).toPart ∈ block.parts

/-- What a compiled room keeps to. -/
structure Orderly (room : RoomForge.Room) : Prop where
  compiled : ∀ routine ∈ room.compiled, Compiled room.scope routine
  free : ∀ routine ∈ room.routines, Role.ofName routine.name room.objects = .free

theorem orderly_of_assemble {id : UInt8} {source : Source} {room : RoomForge.Room}
    (h : (assemble id source).result = .ok room) : room.Orderly := by
  obtain ⟨scripts, hmade⟩ := assemble_eq_ok_iff.mp h
  have hroutines := Report.result_each_eq_ok_iff.mp hmade.routines
  have hobjects := Report.result_each_eq_ok_iff.mp hmade.objects
  rw [hmade.scope_eq] at hroutines hobjects
  constructor
  · intro routine hroutine
    simp only [compiled, List.mem_append, List.mem_filter, List.mem_cons, List.not_mem_nil,
      or_false, List.mem_filterMap, Bool.not_eq_true'] at hroutine
    rcases hroutine with (⟨hmem, hinlined⟩ | rfl | rfl) | ⟨object, hobject, hverb⟩
    · obtain ⟨_, -, hcompiled⟩ := exists_left_of_forall₂ hroutines hmem
      exact compiled_of_withCodeUnlessInlined hcompiled hinlined
    · exact compiled_of_withCode (hmade.scope_eq ▸ hmade.entry)
    · exact compiled_of_withCode (hmade.scope_eq ▸ hmade.exit)
    · obtain ⟨_, -, hcompiled⟩ := exists_left_of_forall₂ hobjects hobject
      exact (withVerbCode_ok hcompiled).2 routine hverb
  · intro routine hroutine
    exact hmade.ofName_eq_free hroutine

/-- A function with a number is in the block of its room. -/
theorem mem_parts_of_roomBlock {room : RoomForge.Room} {routine : Routine} {number : UInt16}
    {code : Bytes} {block : Block} (hroutine : routine ∈ room.routines)
    (hinlined : routine.isInlined = false) (hnumber : routine.number = some number)
    (hcode : routine.code = some code) (h : (roomBlock room).result = .ok block) :
    (leaf 'L' 'S' 'C' 'R' (Bytes.word number ++ code)).toPart ∈ block.parts := by
  obtain ⟨header, picture, images, -, -, -, rfl⟩ := roomBlock_ok h
  have hscript : scriptBlock? routine =
      some (leaf 'L' 'S' 'C' 'R' (Bytes.word number ++ code)) := by
    simp [scriptBlock?, hinlined, hnumber, codeOf, hcode]
  apply List.mem_map_of_mem
  rw [List.mem_flatMap]
  refine ⟨(.ofChars 'L' 'S' 'C' 'R', room.routines.filterMap scriptBlock?),
    by simp [roomGroups], ?_⟩
  exact List.mem_filterMap.mpr ⟨routine, hroutine, hscript⟩

theorem Orderly.exists_target {room : RoomForge.Room} (h : room.Orderly) {name : String}
    {callee : Routine} {number : UInt16} {literals : List String}
    (hmention : (Mention.start name callee number).From room.scope literals) :
    ∃ target, room.IsTarget name callee number target := by
  obtain ⟨hcallee, hname, hinlined, hnumber⟩ := hmention
  rw [routines_scope, List.mem_map] at hcallee
  obtain ⟨target, hmem, rfl⟩ := hcallee
  have hcompiled : target ∈ room.compiled := by
    apply List.mem_append_left
    apply List.mem_append_left
    exact List.mem_filter.mpr ⟨hmem, congrArg not hinlined⟩
  obtain ⟨_, code, _, _, hcode⟩ := h.compiled target hcompiled
  refine ⟨target, hmem, rfl, hname, hinlined, hnumber, h.free target hmem, code, hcode, ?_⟩
  intro block hblock
  exact mem_parts_of_roomBlock hmem hinlined hnumber hcode hblock

/-- Code that starts a script has a call that mentions it. -/
theorem exists_start_of_startScript {instrs : List (Instr Nat)} {mentions : List Mention}
    {number : UInt16} (hmarks : marks instrs = mentions.map Mention.mark)
    (h : .startScript number ∈ instrs) :
    ∃ name callee, Mention.start name callee number ∈ mentions := by
  have hmark : Mark.script number ∈ marks instrs := List.mem_filterMap.mpr ⟨_, h, rfl⟩
  rw [hmarks, List.mem_map] at hmark
  obtain ⟨mention, hmention, heq⟩ := hmark
  cases mention with
  | text literal => exact absurd heq (by simp [Mention.mark])
  | start name callee other =>
    obtain rfl := Mark.script.inj heq
    exact ⟨name, callee, hmention⟩

/-- Every script that the code of a room starts was called by a name that stands for a function of
the room, and the room's block holds that function's code under the number that is started. -/
theorem started_scripts_are_in_the_room {session : Session} {source : Source}
    {room : RoomForge.Room} (h : (session.compile source).2.result = .ok room) :
    ∀ routine ∈ room.compiled, ∃ listing code mentions last,
      compileListing room.scope routine = .ok listing ∧
      encode routine.name listing.instrs = .ok code ∧ routine.code = some code ∧
      StmtMentions room.scope (room.scope.push .function) routine.body mentions last ∧
      marks listing.instrs = mentions.map Mention.mark ∧
      (∀ number, .startScript number ∈ listing.instrs →
        ∃ name callee, Mention.start name callee number ∈ mentions) ∧
      ∀ name callee number, Mention.start name callee number ∈ mentions →
        ∃ target, room.IsTarget name callee number target := by
  have horderly : room.Orderly := by
    unfold Session.compile at h
    split at h
    · exact absurd h (by simp [Report.fail])
    · exact orderly_of_assemble h
  intro routine hroutine
  obtain ⟨listing, code, hlisting, hencode, hcode⟩ := horderly.compiled routine hroutine
  obtain ⟨mentions, last, hmentions, hmarks⟩ := compileListing_mentions hlisting
  refine ⟨listing, code, mentions, last, hlisting, hencode, hcode, hmentions, hmarks, ?_, ?_⟩
  · intro number
    exact exists_start_of_startScript hmarks
  · intro name callee number hmention
    exact horderly.exists_target (hmentions.from_room (by simp) hmention)

/-- A room whose entry starts a script through an inlined function, and whose lamp starts it too. -/
def cabin : Source where
  name := "cabin"
  background := .empty
  objects := [{ id := 7, name := "lamp", x := 0, y := 0 }]
  scripts := [⟨"cabin", "inline function greet() \x7b wave(); \x7d
function wave() \x7b print(\"hey\"); \x7d
function entry() \x7b greet(); \x7d
function lamp_verb() \x7b wave(); \x7d"⟩]

theorem cabin_entry_starts_a_script :
    ∃ room listing, (Session.compile {} cabin).2.result = .ok room ∧
      compileListing room.scope room.entry = .ok listing ∧ .startScript 200 ∈ listing.instrs ∧
      ∃ name callee target, room.IsTarget name callee 200 target := by
  have hstart : ((Session.compile {} cabin).2.result.toOption.any fun room =>
      (compileListing room.scope room.entry).toOption.any fun listing =>
        listing.instrs.contains (.startScript 200)) = true := by decide +kernel
  simp only [Option.any_eq_true, toOption_eq_some_iff, List.contains_iff_mem] at hstart
  obtain ⟨room, hroom, listing, hlisting, hmem⟩ := hstart
  have hentry : room.entry ∈ room.compiled := by simp [compiled]
  obtain ⟨_, _, _, _, hsame, _, _, _, _, hcall, htarget⟩ :=
    started_scripts_are_in_the_room hroom room.entry hentry
  obtain rfl := Except.ok.inj (hlisting.symm.trans hsame)
  obtain ⟨name, callee, hmention⟩ := hcall 200 hmem
  obtain ⟨target, h⟩ := htarget name callee 200 hmention
  exact ⟨room, listing, hroom, hlisting, hmem, name, callee, target, h⟩

end RoomForge.Room
