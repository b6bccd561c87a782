import RoomForge.Game.Load
import RoomForge.Proofs.Reports

set_option autoImplicit false

/-! # What loading promises

What comes behind the loader relies on facts that only the loader checks: masks cover the
background, color cycles and anims have their numbers, and anims use frames that exist. `Checked`
states them of a room's parts, and `loadGame_ok` says that they hold in every game that was loaded
(specification, section 6.3), from descriptors of whatever format.
-/

namespace RoomForge

/-- The result of a numbered item stands at its number. -/
theorem getElem?_of_mapM_zipIdx {ε α β : Type} {f : α × Nat → Except ε β} {items : List α}
    {results : List β} (h : items.zipIdx.mapM f = .ok results) {index : Nat} {result : β}
    (hresult : results[index]? = some result) :
    ∃ item, items[index]? = some item ∧ f (item, index) = .ok result := by
  have hpairs := mapM_eq_ok_iff.mp h
  obtain ⟨hindex, rfl⟩ := List.getElem?_eq_some_iff.mp hresult
  have hzip : index < items.zipIdx.length := hpairs.length_eq ▸ hindex
  have hbound : index < items.length := by rwa [List.length_zipIdx] at hzip
  have hpair : f items.zipIdx[index] = .ok results[index] := hpairs.get hzip hindex
  rw [List.getElem_zipIdx, Nat.zero_add] at hpair
  exact ⟨items[index], List.getElem?_eq_getElem hbound, hpair⟩

end RoomForge

namespace RoomForge.Game

open RoomForge.Picture RoomForge.Room

/-! ## How programs end -/

namespace Loading

variable {α β : Type} (tree : FileTree)

@[simp] theorem result_run_bind (program : Loading α) (next : α → Loading β) :
    ((program >>= next).run tree).result =
      (program.run tree).result >>= fun value => ((next value).run tree).result := by
  rw [run_bind, Report.result_bind]

@[simp] theorem result_run_tell (level : Level) (text : String) :
    ((tell level text).run tree).result = .ok () := rfl

@[simp] theorem result_run_fail (failure : Failure) :
    ((fail failure : Loading α).run tree).result = .error failure := rfl

@[simp] theorem result_run_ofExcept (result : Except Failure α) :
    ((ofExcept result).run tree).result = result := rfl

/-- A program for each item ends as the programs do in turn. -/
@[simp] theorem result_run_mapM (program : α → Loading β) (items : List α) :
    ((items.mapM program).run tree).result =
      items.mapM fun item => ((program item).run tree).result := by
  have hloop : ∀ taken, ((List.mapM.loop program items taken).run tree).result =
      List.mapM.loop (fun item => ((program item).run tree).result) items taken := by
    induction items with
    | nil => exact fun taken => rfl
    | cons item rest ih =>
      intro taken
      simp only [List.mapM.loop, result_run_bind, ih]
  exact hloop []

end Loading

/-! ## What is checked -/

/-- The anims of a costume are numbered from 0 on and use frames that it has. -/
structure AnimsChecked (costume : Costume) : Prop where
  numbered : ∀ (index : Nat) (anim : Anim), costume.anims[index]? = some anim →
    anim.id.toNat = index
  framed : ∀ anim ∈ costume.anims, ∀ frame ∈ anim.frames, frame.toNat < costume.frames.length

/-- What loading checks of a room: masks are as large as the background, color cycles are numbered
from 1 on, and so are the anims of costumes from 0 on. -/
structure Checked (background : Image) (masks : List Mask) (cycles : List Cycle)
    (costumes : List Costume) : Prop where
  masks : ∀ mask ∈ masks, mask.width = background.width ∧ mask.height = background.height
  cycles : ∀ (index : Nat) (cycle : Cycle), cycles[index]? = some cycle →
    cycle.id.toNat = index + 1
  anims : ∀ costume ∈ costumes, AnimsChecked costume

theorem numberCycles_ok {room : String} {cycles : List CycleDescriptor} {numbered : List Cycle}
    (h : numberCycles room cycles = .ok numbered) {index : Nat} {cycle : Cycle}
    (hcycle : numbered[index]? = some cycle) : cycle.id.toNat = index + 1 := by
  obtain ⟨declared, -, hnumber⟩ := getElem?_of_mapM_zipIdx h hcycle
  dsimp only at hnumber
  split at hnumber
  · exact absurd hnumber (by simp)
  · obtain rfl := Except.ok.inj hnumber
    exact UInt8.toNat_ofNat_of_lt' (by show index + 1 < 256; omega)

theorem numberAnims_ok {name : String} {frames : Nat} {anims : List AnimDescriptor}
    {numbered : List Anim} (h : numberAnims name frames anims = .ok numbered) {index : Nat}
    {anim : Anim} (hanim : numbered[index]? = some anim) :
    anim.id.toNat = index ∧ ∀ frame ∈ anim.frames, frame.toNat < frames := by
  obtain ⟨declared, -, hnumber⟩ := getElem?_of_mapM_zipIdx h hanim
  dsimp only at hnumber
  split at hnumber
  · exact absurd hnumber (by simp)
  · next hfound =>
    split at hnumber
    · exact absurd hnumber (by simp)
    · obtain rfl := Except.ok.inj hnumber
      refine ⟨UInt8.toNat_ofNat_of_lt' (by show index < 256; omega), fun frame hframe => ?_⟩
      simpa using List.find?_eq_none.mp hfound frame hframe

section

variable {format : Format} {tree : FileTree} {directory : Path} {name : String}

theorem loadMask_ok {background : Image} {path : Path} {mask : Mask}
    (h : ((loadMask format background path).run tree).result = .ok mask) :
    mask.width = background.width ∧ mask.height = background.height := by
  simp only [loadMask, Loading.result_run_bind, bind_eq_ok_iff] at h
  obtain ⟨declared, -, h⟩ := h
  split at h
  · exact absurd h (by simp)
  · next hdeclared =>
    simp only [Loading.result_run_bind, bind_eq_ok_iff] at h
    obtain ⟨read, -, h⟩ := h
    split at h
    · exact absurd h (by simp)
    · next hread =>
      obtain rfl := Except.ok.inj h
      simp only [ne_eq, not_or, not_not] at hdeclared hread
      exact ⟨hread.1.trans hdeclared.1, hread.2.trans hdeclared.2⟩

theorem loadCostume_ok {costume : Costume}
    (h : ((loadCostume format directory name).run tree).result = .ok costume) :
    AnimsChecked costume := by
  simp only [loadCostume, Loading.result_run_bind, Loading.result_run_ofExcept,
    bind_eq_ok_iff] at h
  obtain ⟨declared, -, frames, -, anims, hanims, h⟩ := h
  obtain rfl := Except.ok.inj h
  refine ⟨fun index anim hanim => (numberAnims_ok hanims hanim).1, fun anim hanim => ?_⟩
  obtain ⟨index, hindex⟩ := List.mem_iff_getElem?.mp hanim
  exact (numberAnims_ok hanims hindex).2

theorem loadCostumes_ok {costumes : List Costume}
    (h : ((loadCostumes format directory).run tree).result = .ok costumes) :
    ∀ costume ∈ costumes, AnimsChecked costume := by
  intro costume hcostume
  simp only [loadCostumes, Loading.result_run_bind, Loading.result_run_mapM, bind_eq_ok_iff,
    mapM_eq_ok_iff] at h
  obtain ⟨names, -, hcostumes⟩ := h
  obtain ⟨name, -, hloaded⟩ := exists_left_of_forall₂ hcostumes hcostume
  exact loadCostume_ok hloaded

theorem loadRoom_ok {source : Source}
    (h : ((loadRoom format directory name).run tree).result = .ok source) :
    Checked source.background source.masks source.palette.cycles source.costumes := by
  simp only [loadRoom, Loading.result_run_bind, Loading.result_run_tell,
    Loading.result_run_mapM, Loading.result_run_ofExcept, ok_bind, bind_eq_ok_iff,
    mapM_eq_ok_iff] at h
  obtain ⟨room, -, background, -, masks, hmasks, cycles, hcycles, boxes, -, objects, -, costumes,
    hcostumes, scripts, -, h⟩ := h
  obtain rfl := Except.ok.inj h
  refine ⟨fun mask hmask => ?_, fun index cycle => numberCycles_ok hcycles,
    loadCostumes_ok hcostumes⟩
  obtain ⟨file, -, hloaded⟩ := exists_left_of_forall₂ hmasks hmask
  exact loadMask_ok hloaded

/-- Every room of a game that was loaded has been checked. -/
theorem loadGame_ok {sources : List Source}
    (h : ((loadGame format directory).run tree).result = .ok sources) :
    ∀ source ∈ sources,
      Checked source.background source.masks source.palette.cycles source.costumes := by
  intro source hsource
  simp only [loadGame, Loading.result_run_bind, Loading.result_run_tell, Loading.result_run_mapM,
    ok_bind, bind_eq_ok_iff, mapM_eq_ok_iff] at h
  obtain ⟨names, -, hsources⟩ := h
  obtain ⟨name, -, hloaded⟩ := exists_left_of_forall₂ hsources hsource
  exact loadRoom_ok hloaded

end

end RoomForge.Game
