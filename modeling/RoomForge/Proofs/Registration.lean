import Mathlib.Data.List.Induction
import RoomForge.Proofs.Assembly

set_option autoImplicit false

/-! # First come, first kept

A registry keeps the first constant that is entered by a name and refuses the others, whatever was
entered and refused before (specification, section 3). So the constants of a room stand in the order
in which they are offered to its registry, and a room with a name too many fails at the first one
that repeats another: `registries_hold_first_offers`. A registry is the same after a refusal as
before.
-/

namespace RoomForge.Room

open RoomForge.Code RoomForge.Script

/-! ## Rows of offers -/

/-- The constants of a row that have no constant of their name before them. -/
def firstOffers : List Constant → List Constant
  | [] => []
  | constant :: rest =>
    constant :: (firstOffers rest).filter fun other => other.name != constant.name

/-- One more constant is a first one if its name is new. -/
theorem firstOffers_append_singleton (history : List Constant) (constant : Constant) :
    firstOffers (history ++ [constant]) =
      if constant.name ∈ history.map Constant.name then firstOffers history
      else firstOffers history ++ [constant] := by
  induction history with
  | nil => rfl
  | cons first rest ih =>
    rw [List.cons_append, firstOffers, firstOffers, ih, List.map_cons]
    by_cases hfirst : constant.name = first.name
    · -- The first constant removes the last one, wherever it would stand.
      have htaken : constant.name ∈ first.name :: rest.map Constant.name := by simp [hfirst]
      rw [if_pos htaken]
      split <;> simp [hfirst]
    · by_cases hrest : constant.name ∈ rest.map Constant.name
      · rw [if_pos hrest, if_pos (List.mem_cons_of_mem _ hrest)]
      · rw [if_neg hrest, if_neg (by simp [hfirst, hrest])]
        simp [hfirst]

theorem mem_map_firstOffers {history : List Constant} {name : String} :
    name ∈ (firstOffers history).map Constant.name ↔ name ∈ history.map Constant.name := by
  induction history using List.reverseRecOn with
  | nil => rfl
  | append_singleton history constant ih =>
    rw [firstOffers_append_singleton]
    by_cases htaken : constant.name ∈ history.map Constant.name
    · rw [if_pos htaken, ih, List.map_append, List.mem_append]
      refine ⟨.inl, fun h => ?_⟩
      rcases h with hhistory | hlast
      · exact hhistory
      · rwa [List.mem_singleton.mp hlast]
    · rw [if_neg htaken, List.map_append, List.map_append, List.mem_append, List.mem_append, ih]

/-- The first offer by a name is the first one of the row that has it. -/
theorem find?_firstOffers (history : List Constant) (name : String) :
    ((firstOffers history).find? fun constant => constant.name == name) =
      history.find? fun constant => constant.name == name := by
  induction history with
  | nil => rfl
  | cons first rest ih =>
    rw [firstOffers, List.find?_cons, List.find?_cons, ← ih, List.find?_filter]
    cases hname : first.name == name with
    | true => rfl
    | false =>
      have hne : first.name ≠ name := by simpa using hname
      refine congrArg (fun found => List.find? found (firstOffers rest)) (funext fun other => ?_)
      by_cases hother : other.name = name
      · simp [hother, hne.symm]
      · simp [hother]

/-! ## Registries -/

namespace Registry

/-- The registry behind a row of attempts to enter constants, the first one into an empty
registry. -/
def offered (history : List Constant) : Registry :=
  history.foldl (fun registry constant => (registry.insert constant).1) default

theorem offered_append_singleton (history : List Constant) (constant : Constant) :
    offered (history ++ [constant]) = ((offered history).insert constant).1 := by
  rw [offered, List.foldl_append]
  rfl

theorem entries_insert (registry : Registry) (constant : Constant) :
    (registry.insert constant).1.entries.toList =
      if constant.name ∈ registry.entries.toList.map Constant.name then registry.entries.toList
      else registry.entries.toList ++ [constant] := by
  split_ifs with htaken
  · rw [insert_of_mem htaken]
  · exact (insert_of_not_mem htaken).2

/-- A registry holds the first constants that it was offered. -/
theorem entries_offered (history : List Constant) :
    (offered history).entries.toList = firstOffers history := by
  induction history using List.reverseRecOn with
  | nil => rfl
  | append_singleton history constant ih =>
    rw [offered_append_singleton, entries_insert, ih, firstOffers_append_singleton]
    simp only [mem_map_firstOffers]

/-- Entering constants one after the other fails at the first one whose name is taken. -/
theorem insertAll_eq_error_iff {registry : Registry} {constants : List Constant}
    {fault : CompileError} (hdistinct : (registry.entries.toList.map Constant.name).Nodup) :
    registry.insertAll constants = .error fault ↔ ∃ before constant behind,
      constants = before ++ constant :: behind ∧
      ((registry.entries.toList ++ before).map Constant.name).Nodup ∧
      constant.name ∈ (registry.entries.toList ++ before).map Constant.name ∧
      fault = .duplicate constant.name := by
  constructor
  · intro h
    induction constants generalizing registry with
    | nil => exact absurd h (by simp [insertAll])
    | cons first rest ih =>
      rw [insertAll_cons] at h
      by_cases htaken : first.name ∈ registry.entries.toList.map Constant.name
      · rw [insert_of_mem htaken] at h
        refine ⟨[], first, rest, rfl, ?_, ?_, (Except.error.inj h).symm⟩
        · rwa [List.append_nil]
        · rwa [List.append_nil]
      · obtain ⟨hok, hentries⟩ := insert_of_not_mem htaken
        rw [hok, ok_bind] at h
        have hnextDistinct :
            ((registry.insert first).1.entries.toList.map Constant.name).Nodup := by
          rw [hentries]
          exact nodup_map_append_singleton_iff.mpr ⟨hdistinct, htaken⟩
        obtain ⟨before, constant, behind, rfl, hbefore, hconstant, hfault⟩ := ih hnextDistinct h
        rw [hentries, List.append_assoc] at hbefore hconstant
        exact ⟨first :: before, constant, behind, rfl, hbefore, hconstant, hfault⟩
  · rintro ⟨before, constant, behind, rfl, hbefore, hconstant, rfl⟩
    obtain ⟨middle, hmiddle⟩ := exists_insertAll registry hbefore
    rw [insertAll_append, hmiddle, ok_bind, insertAll_cons,
      insert_of_mem ((insertAll_ok hdistinct hmiddle).1 ▸ hconstant)]
    rfl

/-- What a registry is behind a row of attempts to enter constants. -/
structure Holds (registry : Registry) (history : List Constant) : Prop where
  entries_eq : registry.entries.toList = firstOffers history
  find?_eq : ∀ name, registry.find? name = history.find? fun constant => constant.name == name
  /-- A constant whose name was offered before is refused, and nothing changes. -/
  taken : ∀ constant : Constant, constant.name ∈ history.map Constant.name →
    registry.insert constant = (registry, .error (.duplicate constant.name)) ∧
      offered (history ++ [constant]) = registry
  /-- Any other constant is entered behind the others. -/
  free : ∀ constant : Constant, constant.name ∉ history.map Constant.name →
    ∃ after, registry.insert constant = (after, .ok ()) ∧
      offered (history ++ [constant]) = after ∧
      after.entries.toList = registry.entries.toList ++ [constant]

theorem holds_offered (history : List Constant) : (offered history).Holds history where
  entries_eq := entries_offered history
  find?_eq name := by
    rw [find?_eq, ← Array.find?_toList, entries_offered, find?_firstOffers]
  taken constant hconstant := by
    have htaken : constant.name ∈ (offered history).entries.toList.map Constant.name := by
      rwa [entries_offered, mem_map_firstOffers]
    have hinsert := insert_of_mem htaken
    exact ⟨hinsert, by rw [offered_append_singleton, hinsert]⟩
  free constant hconstant := by
    have hnew : constant.name ∉ (offered history).entries.toList.map Constant.name := by
      rwa [entries_offered, mem_map_firstOffers]
    obtain ⟨hok, hentries⟩ := insert_of_not_mem hnew
    exact ⟨_, Prod.ext rfl hok, offered_append_singleton history constant, hentries⟩

end Registry

/-! ## Rooms -/

/-- The constants that a room has without its scripts: those of the engine, its cycles, its objects,
its costumes, each in front of its anims, and its walk boxes, all by their numbers. -/
def givenConstants (source : Source) : List Constant :=
  Engine.constants ++
    (source.palette.cycles.map fun cycle => ⟨cycle.name, cycle.id.toNat⟩) ++
    (source.objects.map fun object => ⟨object.name, object.id.toNat⟩) ++
    (source.costumes.flatMap fun costume =>
      ⟨costume.name, costume.id.toNat⟩ ::
        costume.anims.map fun anim => ⟨anim.name, anim.id.toNat⟩) ++
    source.boxes.map fun box => ⟨box.name, box.id.toNat⟩

theorem givenConstants_eq (source : Source) :
    givenConstants source = Engine.constants ++ Registry.resourceConstants source := by
  simp only [givenConstants, Registry.resourceConstants, List.append_assoc]

theorem Made.constants_eq {id : UInt8} {source : Source} {scripts : List Declarations}
    {room : RoomForge.Room} (h : Made id source scripts room) :
    room.constants = givenConstants source ++ scripts.flatMap (·.constants) := by
  rw [h.eq_room, givenConstants_eq, constantsOf]

/-- A registry holds the first constant of each name that it was offered. The constants of an
accepted room are those of the engine, of its resources and of its scripts in this order, without a
name that repeats another; and before the scripts are read, the first name that repeats another is
what stops a room. -/
theorem registries_hold_first_offers :
    (∀ history, (Registry.offered history).Holds history) ∧
    (∀ (session : Session) (source : Source) (room : RoomForge.Room),
      (session.compile source).2.result = .ok room → ∃ scripts,
        List.Forall₂ (fun text script => parse text.text = .ok script) source.scripts scripts ∧
        room.constants = givenConstants source ++ scripts.flatMap (·.constants) ∧
        (room.constants.map Constant.name).Nodup) ∧
    ∀ source : Source,
      (∀ registry, (Registry.ofResources source).result = .ok registry →
        registry.entries.toList = givenConstants source) ∧
      ∀ fault, (Registry.ofResources source).result = .error fault ↔
        ∃ before constant behind, givenConstants source = before ++ constant :: behind ∧
          (before.map Constant.name).Nodup ∧ constant.name ∈ before.map Constant.name ∧
          fault = .duplicate constant.name := by
  refine ⟨Registry.holds_offered, ?_, ?_⟩
  · intro session source room h
    obtain ⟨-, scripts, hmade⟩ := Session.compile_eq_ok_iff.mp h
    refine ⟨scripts, hmade.read, hmade.constants_eq, ?_⟩
    rw [hmade.constants_eq, givenConstants_eq]
    exact hmade.distinct
  · intro source
    rw [Registry.result_ofResources, ← givenConstants_eq]
    refine ⟨fun registry h => ?_, fun fault => ?_⟩
    · simpa using (Registry.insertAll_ok (by simp) h).1
    · exact Registry.insertAll_eq_error_iff List.nodup_nil

/-- A room with resources of every kind and a script that names a constant. -/
def harbor : Source where
  name := "harbor"
  background := .empty
  palette := { cycles := [⟨1, "tide", 16, 20, 8⟩] }
  objects := [{ id := 10, name := "boat", x := 0, y := 0 }]
  costumes := [{ id := 3, name := "sailor", anims := [⟨0, "row", []⟩, ⟨1, "rest", []⟩] }]
  boxes := [⟨4, "quay", {}, {}, {}, {}, 0, 255⟩]
  scripts := [⟨"fog", "const FOG = -2;"⟩,
    ⟨"bell", "const BELL = 7; function entry() \x7b print(FOG); \x7d"⟩]

theorem harbor_holds_first_offers :
    (∃ room, (Session.compile {} harbor).2.result = .ok room ∧
      room.constants = Engine.constants ++ [⟨"tide", 1⟩, ⟨"boat", 10⟩, ⟨"sailor", 3⟩, ⟨"row", 0⟩,
        ⟨"rest", 1⟩, ⟨"quay", 4⟩, ⟨"FOG", -2⟩, ⟨"BELL", 7⟩] ∧
      (room.constants.map Constant.name).Nodup) ∧
    (Registry.ofResources { harbor with objects := harbor.objects ++ harbor.objects }).result =
      .error (.duplicate "boat") ∧
    (Registry.offered [⟨"boat", 10⟩, ⟨"boat", 11⟩, ⟨"quay", 4⟩]).find? "boat" =
      some ⟨"boat", 10⟩ := by
  obtain ⟨hholds, haccepted, hresources⟩ := registries_hold_first_offers
  refine ⟨?_, ?_, ?_⟩
  · have hok : (Session.compile {} harbor).2.result.isOk = true := by decide +kernel
    obtain ⟨room, hroom⟩ := exists_ok_of_isOk hok
    obtain ⟨scripts, hread, hconstants, hdistinct⟩ := haccepted {} harbor room hroom
    have hscripts : (harbor.scripts.mapM fun text => parse text.text).toOption.map
        (fun scripts => scripts.flatMap (·.constants)) = some [⟨"FOG", -2⟩, ⟨"BELL", 7⟩] := by
      decide +kernel
    rw [mapM_eq_ok_iff.mpr hread] at hscripts
    refine ⟨room, hroom, ?_, hdistinct⟩
    rw [hconstants, show scripts.flatMap (·.constants) = _ from Option.some.inj hscripts]
    rfl
  · refine ((hresources _).2 _).mpr ⟨Engine.constants ++ [⟨"tide", 1⟩, ⟨"boat", 10⟩], ⟨"boat", 10⟩,
      _, rfl, ?_, ?_, rfl⟩
    · decide +kernel
    · decide +kernel
  · rw [(hholds _).find?_eq]
    rfl

end RoomForge.Room
