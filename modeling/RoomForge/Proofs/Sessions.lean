import RoomForge.Game.Build
import RoomForge.Proofs.Reports

set_option autoImplicit false

/-! # Sessions

A session hands its numbers out in turn and keeps nothing else of the rooms it compiles
(specification, sections 4.4 and 5). So each of its rooms comes out as it would have alone, but for
the number, and a game compiles if there is a number for each of its rooms and each of them compiles
alone: `rooms_compile_as_if_alone`.
-/

namespace RoomForge.Report

variable {ε α β γ : Type}

/-- A report whose value is seen through `f`. -/
def mapResult (f : α → β) (report : Report ε α) : Report ε β :=
  ⟨report.log, report.result.map f⟩

theorem mapResult_pure (f : α → β) (value : α) :
    mapResult f (pure value : Report ε α) = pure (f value) := rfl

theorem mapResult_bind (f : β → γ) (first : Report ε α) (next : α → Report ε β) :
    mapResult f (first >>= next) = first >>= fun value => mapResult f (next value) := by
  obtain ⟨log, result⟩ := first
  cases result with
  | ok value => rfl
  | error e => rfl

end RoomForge.Report

namespace RoomForge.Room

open RoomForge.Code

/-! ## Rooms under other numbers -/

/-- The room under another number. -/
def withId (room : RoomForge.Room) (id : UInt8) : RoomForge.Room :=
  { room with id }

/-- What is said when a room gets its number. -/
def numberMessage (name : String) (id : UInt8) : Message :=
  ⟨.info, s!"Room `{name}` gets id {id}"⟩

/-- The report on a room as it reads when the room has the number `id`: the number is said first,
and stands in the room. -/
def renumbered (id : UInt8) (name : String) (report : Report CompileError RoomForge.Room) :
    Report CompileError RoomForge.Room :=
  ⟨numberMessage name id :: report.log.tail, report.result.map (·.withId id)⟩

theorem renumbered_bind (first second : UInt8) (name : String)
    (next : Unit → Report CompileError RoomForge.Room) :
    renumbered second name (.say .info s!"Room `{name}` gets id {first}" >>= next) =
      .say .info s!"Room `{name}` gets id {second}" >>= fun said =>
        (next said).mapResult (·.withId second) := rfl

/-- Nothing but the first message and the number of the room depends on the number. -/
theorem assemble_eq_renumbered (first second : UInt8) (source : Source) :
    assemble second source = renumbered second source.name (assemble first source) := by
  unfold assemble
  rw [renumbered_bind]
  simp only [Report.mapResult_bind]
  cases (mergeColors source.palette source.objects source.costumes).overflow with
  | none => simp only [Report.mapResult_bind, Report.mapResult_pure, withId]
  | some warning => simp only [Report.mapResult_bind, Report.mapResult_pure, withId]

/-! ## Rooms in turn -/

namespace Session

/-- A new session after `count` rooms, compiled or not. -/
def after (count : Nat) : Session :=
  ⟨if count < 255 then UInt8.ofNat (count + 1) else 0⟩

/-- What the room behind `count` others gets: what it gets alone, under the next number, as long as
there is one. -/
def outcome (count : Nat) (source : Source) : Report CompileError RoomForge.Room :=
  if count < 255 then
    renumbered (UInt8.ofNat (count + 1)) source.name (Session.compile {} source).2
  else .fail .tooManyRooms

theorem toNat_next_after {count : Nat} (h : count < 255) :
    (after count).next.toNat = count + 1 := by
  rw [after, if_pos h, UInt8.toNat_ofNat']
  omega

theorem next_after_eq_zero_iff (count : Nat) : (after count).next = 0 ↔ 255 ≤ count := by
  constructor
  · intro hzero
    by_contra hlt
    have hnext := toNat_next_after (Nat.lt_of_not_le hlt)
    rw [hzero] at hnext
    exact absurd hnext (by simp)
  · intro hle
    exact if_neg (Nat.not_lt.mpr hle)

/-- The numbers end when the next one would be zero. -/
theorem after_succ {count : Nat} (h : count < 255) :
    after (count + 1) = ⟨(after count).next + 1⟩ := by
  have hnext : (after (count + 1)).next = (after count).next + 1 := by
    apply UInt8.toNat_inj.mp
    rw [UInt8.toNat_add, toNat_next_after h]
    by_cases hlast : count + 1 < 255
    · rw [toNat_next_after hlast]
      simp
      omega
    · obtain rfl : count = 254 := by omega
      rfl
  rw [← hnext]

/-- A room takes the next number, whether it compiles or not. -/
theorem compile_after (count : Nat) (source : Source) :
    (after count).compile source = (after (count + 1), outcome count source) := by
  by_cases h : count < 255
  · have hnext : (after count).next ≠ 0 := by
      rw [Ne, next_after_eq_zero_iff]
      omega
    have hnumber : (after count).next = UInt8.ofNat (count + 1) := if_pos h
    rw [compile, if_neg hnext, ← after_succ h, outcome, if_pos h, hnumber,
      assemble_eq_renumbered 1 (UInt8.ofNat (count + 1))]
    rfl
  · have hsame : after (count + 1) = after count := by
      rw [after, after, if_neg h, if_neg (by omega)]
    rw [compile, if_pos ((next_after_eq_zero_iff count).mpr (by omega)), hsame, outcome, if_neg h]

theorem compileAll_after (count : Nat) (sources : List Source) :
    (after count).compileAll sources =
      sources.mapIdx fun index source => outcome (count + index) source := by
  induction sources generalizing count with
  | nil => rfl
  | cons source rest ih =>
    rw [compileAll, compile_after]
    dsimp only
    rw [ih, List.mapIdx_cons]
    simp only [Nat.add_zero, Nat.add_right_comm, Nat.add_assoc]

/-- What a new session reports on its rooms. -/
theorem getElem?_compileAll (sources : List Source) (index : Nat)
    (report : Report CompileError RoomForge.Room) :
    (Session.compileAll {} sources)[index]? = some report ↔
      ∃ source, sources[index]? = some source ∧ report = outcome index source := by
  have hall : Session.compileAll {} sources = _ := compileAll_after 0 sources
  rw [hall, List.getElem?_mapIdx, Option.map_eq_some_iff]
  simp only [Nat.zero_add, eq_comm]

theorem toNat_id_of_outcome {count : Nat} {source : Source} {room : RoomForge.Room}
    (h : (outcome count source).result = .ok room) : room.id.toNat = count + 1 := by
  unfold outcome at h
  split at h
  · next hlt =>
    obtain ⟨alone, -, rfl⟩ := map_eq_ok_iff.mp h
    rw [withId, UInt8.toNat_ofNat']
    omega
  · exact absurd h (by simp [Report.fail])

end Session

end RoomForge.Room

namespace RoomForge.Game

open RoomForge.Code RoomForge.Room

/-! ## Games -/

/-- How a game fails when its room `name` does. -/
def roomFailure (name : String) (e : CompileError) : Failure :=
  { doing := [.compilingRoom name], cause := .compile e }

theorem result_compileNext (count : Nat) (done : List RoomForge.Room) (source : Source) :
    (compileNext (.after count, done) source).result =
      ((Session.outcome count source).result.mapError (roomFailure source.name)).map fun room =>
        (.after (count + 1), room :: done) := by
  simp only [compileNext, Session.compile_after, Report.doing, Report.result_bind,
    Report.result_mapError]
  cases (Session.outcome count source).result with
  | error e => rfl
  | ok room =>
    simp only [Except.mapError, ok_bind]
    split <;> rfl

/-- What a game has of a room behind others: the room, or how the game fails. -/
def roomResult (numbered : Source × Nat) : Except Failure RoomForge.Room :=
  (Session.outcome numbered.2 numbered.1).result.mapError (roomFailure numbered.1.name)

theorem result_fold_compileNext (count : Nat) (done : List RoomForge.Room) (sources : List Source) :
    (Report.fold compileNext (.after count, done) sources).result =
      ((sources.zipIdx count).mapM roomResult).map fun rooms =>
        (.after (count + sources.length), rooms.reverse ++ done) := by
  rw [Report.result_fold]
  induction sources generalizing count done with
  | nil => rfl
  | cons source rest ih =>
    rw [List.foldlM_cons, List.zipIdx_cons, List.mapM_cons, result_compileNext, roomResult]
    cases (Session.outcome count source).result with
    | error e => rfl
    | ok room =>
      simp only [Except.mapError, Except.map, ok_bind, ih]
      cases (rest.zipIdx (count + 1)).mapM roomResult with
      | error failure => rfl
      | ok rooms =>
        simp [bind, Except.bind, pure, Except.pure, Nat.add_right_comm, Nat.add_assoc]

/-- A game compiles its rooms in turn, up to the first failure. -/
theorem result_compileGame (sources : List Source) :
    (compileGame sources).result = sources.zipIdx.mapM roomResult := by
  have hfold : (Report.fold compileNext ({}, []) sources).result = _ :=
    result_fold_compileNext 0 [] sources
  rw [compileGame, Report.result_bind, hfold]
  cases sources.zipIdx.mapM roomResult with
  | error failure => rfl
  | ok rooms => simp [Except.map, bind, Except.bind]

/-- A room compiles in a game as it does alone, as long as there is a number for it. -/
theorem roomResult_eq_ok_iff {source : Source} {count : Nat} {room : RoomForge.Room} :
    roomResult (source, count) = .ok room ↔ count < 255 ∧
      ∃ alone, (Session.compile {} source).2.result = .ok alone ∧
        room = alone.withId (UInt8.ofNat (count + 1)) := by
  simp only [roomResult, mapError_eq_ok_iff, Session.outcome]
  split
  · next h => simp only [renumbered, map_eq_ok_iff, h, true_and, eq_comm (a := room)]
  · next h => simp [Report.fail, h]

/-- A room fails in a game as it does alone, or for lack of a number. -/
theorem roomResult_eq_error_iff {source : Source} {count : Nat} {failure : Failure} :
    roomResult (source, count) = .error failure ↔ ∃ e, failure = roomFailure source.name e ∧
      (count < 255 ∧ (Session.compile {} source).2.result = .error e ∨
        255 ≤ count ∧ e = .tooManyRooms) := by
  simp only [roomResult, Session.outcome]
  split
  · next h =>
    dsimp only [renumbered]
    cases (Session.compile {} source).2.result with
    | ok alone => simp [Except.mapError, Except.map, h]
    | error e => simp [Except.mapError, Except.map, h, Nat.not_le.mpr h, eq_comm]
  · next h => simp [Report.fail, Except.mapError, h, Nat.not_lt.mp h, eq_comm]

theorem forall₂_roomResult_iff {count : Nat} {sources : List Source} {rooms : List RoomForge.Room}
    (hcount : count ≤ 255) :
    List.Forall₂ (fun numbered room => roomResult numbered = .ok room) (sources.zipIdx count)
        rooms ↔
      count + sources.length ≤ 255 ∧ ∃ alone,
        List.Forall₂ (fun source room => (Session.compile {} source).2.result = .ok room) sources
          alone ∧
        rooms = alone.mapIdx fun index room => room.withId (UInt8.ofNat (count + index + 1)) := by
  induction sources generalizing count rooms with
  | nil => simp [hcount]
  | cons source rest ih =>
    have hindex : ∀ index, count + 1 + index + 1 = count + (index + 1) + 1 := by omega
    rw [List.zipIdx_cons, List.forall₂_cons_left_iff]
    constructor
    · rintro ⟨room, others, hroom, hothers, rfl⟩
      obtain ⟨hlt, alone, halone, rfl⟩ := roomResult_eq_ok_iff.mp hroom
      obtain ⟨hle, behind, hbehind, rfl⟩ := (ih (by omega)).mp hothers
      refine ⟨by rw [List.length_cons]; omega, alone :: behind, .cons halone hbehind, ?_⟩
      simp only [List.mapIdx_cons, Nat.add_zero, hindex]
    · rintro ⟨hle, alone, halone, rfl⟩
      rw [List.length_cons] at hle
      obtain ⟨room, behind, hroom, hbehind, rfl⟩ := List.forall₂_cons_left_iff.mp halone
      rw [List.mapIdx_cons]
      refine ⟨_, _, roomResult_eq_ok_iff.mpr ⟨by omega, room, hroom, rfl⟩, ?_, rfl⟩
      rw [ih (by omega)]
      exact ⟨by omega, behind, hbehind, by simp only [hindex]⟩

/-- A game fails as the first of its rooms that does, or at the first without a number. -/
theorem mapM_roomResult_eq_error_iff {sources : List Source} {failure : Failure} :
    sources.zipIdx.mapM roomResult = .error failure ↔ ∃ index source e,
      sources[index]? = some source ∧ failure = roomFailure source.name e ∧
      (index < 255 ∧ (Session.compile {} source).2.result = .error e ∨
        index = 255 ∧ e = .tooManyRooms) ∧
      ∀ before < index, ∀ earlier, sources[before]? = some earlier →
        ∃ room, (Session.compile {} earlier).2.result = .ok room := by
  have hnumbered : ∀ index (numbered : Source × Nat), sources.zipIdx[index]? = some numbered ↔
      sources[index]? = some numbered.1 ∧ numbered.2 = index := by
    rintro index ⟨source, count⟩
    rw [List.getElem?_zipIdx, Option.map_eq_some_iff]
    simp [eq_comm]
  simp only [mapM_eq_error_iff, hnumbered]
  constructor
  · rintro ⟨_, ⟨source, index⟩, ⟨hsource, rfl⟩, hfails, hearlier⟩
    obtain ⟨e, rfl, hcause⟩ := roomResult_eq_error_iff.mp hfails
    refine ⟨index, source, e, hsource, rfl, hcause.imp_right fun hmany => ⟨?_, hmany.2⟩, ?_⟩
    · -- A room further back is not reached: the one without a number before it fails first.
      by_contra hne
      have hlength := (List.getElem?_eq_some_iff.mp hsource).1
      have hlast : 255 < sources.length := by omega
      obtain ⟨_, hroom⟩ := hearlier 255 (by omega) (sources[255], 255) ⟨by simp [hlast], rfl⟩
      exact absurd (roomResult_eq_ok_iff.mp hroom).1 (by simp)
    · intro before hbefore earlier hfound
      obtain ⟨_, hroom⟩ := hearlier before hbefore (earlier, before) ⟨hfound, rfl⟩
      obtain ⟨-, alone, halone, -⟩ := roomResult_eq_ok_iff.mp hroom
      exact ⟨alone, halone⟩
  · rintro ⟨index, source, e, hsource, rfl, hcause, hearlier⟩
    refine ⟨index, (source, index), ⟨hsource, rfl⟩, ?_, ?_⟩
    · exact roomResult_eq_error_iff.mpr ⟨e, rfl, hcause.imp_right fun hmany =>
        ⟨Nat.le_of_eq hmany.1.symm, hmany.2⟩⟩
    · rintro _ hbefore ⟨earlier, before⟩ ⟨hfound, rfl⟩
      obtain ⟨alone, halone⟩ := hearlier before hbefore earlier hfound
      exact ⟨_, roomResult_eq_ok_iff.mpr ⟨by omega, alone, halone, rfl⟩⟩

/-- Rooms that one session compiles get the numbers 1, 2, ... up to 255 in turn, whether they
compile or not, and behind those none. But for its number, each room comes out as from a new
session. So a game compiles if it has at most 255 rooms and each of them compiles alone, and
otherwise fails as the first room that does. -/
theorem rooms_compile_as_if_alone (sources : List Source) :
    (∀ index report, (Session.compileAll {} sources)[index]? = some report ↔
      ∃ source, sources[index]? = some source ∧
        report = if index < 255 then
            renumbered (UInt8.ofNat (index + 1)) source.name (Session.compile {} source).2
          else .fail .tooManyRooms) ∧
    (∀ index report (room : RoomForge.Room), (Session.compileAll {} sources)[index]? = some report →
      report.result = .ok room → room.id ≠ 0 ∧ room.id.toNat = index + 1 ∧
        ∀ other otherReport otherRoom, (Session.compileAll {} sources)[other]? = some otherReport →
          otherReport.result = .ok otherRoom → otherRoom.id = room.id → other = index) ∧
    (∀ rooms, (compileGame sources).result = .ok rooms ↔ sources.length ≤ 255 ∧ ∃ alone,
      List.Forall₂ (fun source room => (Session.compile {} source).2.result = .ok room) sources
        alone ∧
      rooms = alone.mapIdx fun index room => room.withId (UInt8.ofNat (index + 1))) ∧
    (∀ failure, (compileGame sources).result = .error failure ↔ ∃ index source e,
      sources[index]? = some source ∧ failure = roomFailure source.name e ∧
      (index < 255 ∧ (Session.compile {} source).2.result = .error e ∨
        index = 255 ∧ e = .tooManyRooms) ∧
      ∀ before < index, ∀ earlier, sources[before]? = some earlier →
        ∃ room, (Session.compile {} earlier).2.result = .ok room) := by
  have hreports : ∀ index report, (Session.compileAll {} sources)[index]? = some report ↔
      ∃ source, sources[index]? = some source ∧ report = Session.outcome index source :=
    Session.getElem?_compileAll sources
  have hid : ∀ index report room, (Session.compileAll {} sources)[index]? = some report →
      report.result = .ok room → room.id.toNat = index + 1 := by
    intro index report room hreport hroom
    obtain ⟨source, -, rfl⟩ := (hreports index report).mp hreport
    exact Session.toNat_id_of_outcome hroom
  refine ⟨hreports, ?_, ?_, ?_⟩
  · intro index report room hreport hroom
    have hroomId := hid index report room hreport hroom
    refine ⟨fun hzero => ?_, hroomId, ?_⟩
    · rw [hzero] at hroomId
      exact absurd hroomId (by simp)
    · intro other otherReport otherRoom hother hotherRoom hsame
      have hotherId := hid other otherReport otherRoom hother hotherRoom
      rw [hsame] at hotherId
      omega
  · intro rooms
    rw [result_compileGame, mapM_eq_ok_iff, forall₂_roomResult_iff (Nat.zero_le 255)]
    simp only [Nat.zero_add]
  · intro failure
    rw [result_compileGame, mapM_roomResult_eq_error_iff]

/-- A room with nothing in it. -/
def cell : Source where
  name := "cell"
  background := .empty

theorem cells_compile_in_turn : ∃ alone, (Session.compile {} cell).2.result = .ok alone ∧
    (compileGame [cell, cell]).result = .ok [alone.withId 1, alone.withId 2] := by
  have hok : (Session.compile {} cell).2.result.isOk = true := by decide +kernel
  obtain ⟨alone, halone⟩ := exists_ok_of_isOk hok
  refine ⟨alone, halone, ?_⟩
  rw [(rooms_compile_as_if_alone [cell, cell]).2.2.1]
  exact ⟨by simp, [alone, alone], .cons halone (.cons halone .nil), rfl⟩

end RoomForge.Game
