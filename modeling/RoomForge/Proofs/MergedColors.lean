import RoomForge.Proofs.Consistency

set_option autoImplicit false

/-! # Colors find their places

The colors of objects and costumes stand behind the colors of their room, one thing's behind the
other's (specification, section 4.4, steps 3 and 4). What a thing is told is where its own colors
start, and as long as the game file keeps all colors, that is where its colors are found in the
file: `merging_places_every_color`.

Places are counted in one pass and colors are written in another. `setColors_resize` says what the
second one does, and `mergeColors_eq` puts the two together; from there on a merged palette is the
list of all colors. A place is kept in a word, so it is wrong beyond 65535 colors, where a warning
has long been given.
-/

namespace RoomForge.Picture.Palette

/-! ## Making room in a palette -/

/-- Writing colors one after the other replaces as many colors from the first place on. -/
theorem colors_setColors (palette : Palette) (start : Nat) (colors : List Color)
    (inside : start + colors.length ≤ palette.colors.length) :
    (palette.setColors start colors inside).colors =
      palette.colors.take start ++ colors ++ palette.colors.drop (start + colors.length) := by
  induction colors generalizing palette start with
  | nil => simp [setColors_nil]
  | cons color rest ih =>
    rw [List.length_cons] at inside
    have here : start < palette.colors.length := by omega
    have behind : start + 1 + rest.length ≤ (palette.setColor start color here).colors.length := by
      rw [length_setColor]
      omega
    -- What is written first lies in front of all that is written later.
    have hfront : (palette.colors.set start color).take (start + 1) =
        palette.colors.take start ++ [color] := by
      rw [List.take_add_one, List.take_set_of_le (Nat.le_refl start)]
      simp [here]
    have hback : (palette.colors.set start color).drop (start + 1 + rest.length) =
        palette.colors.drop (start + (color :: rest).length) := by
      rw [List.drop_set_of_lt (by omega), List.length_cons]
      congr 1
      omega
    rw [setColors_cons palette start color rest inside here behind, ih]
    change (palette.colors.set start color).take (start + 1) ++ rest ++
      (palette.colors.set start color).drop (start + 1 + rest.length) = _
    rw [hfront, hback]
    simp

/-- Making room for more colors and writing them there puts them behind the colors of the palette,
which stay as they are. -/
theorem setColors_resize (palette : Palette) (added : List Color)
    (inside : palette.colors.length + added.length ≤
      (palette.resize (palette.colors.length + added.length)).colors.length) :
    (palette.resize (palette.colors.length + added.length)).setColors palette.colors.length added
      inside = { palette with colors := palette.colors ++ added } := by
  have hcolors := colors_setColors _ _ _ inside
  have hfront : (palette.resize (palette.colors.length + added.length)).colors.take
      palette.colors.length = palette.colors := by
    simp [resize, List.take_of_length_le]
  have hback : (palette.resize (palette.colors.length + added.length)).colors.drop
      (palette.colors.length + added.length) = [] :=
    List.drop_of_length_le (Nat.le_of_eq (length_resize ..))
  rw [hfront, hback, List.append_nil] at hcolors
  rw [← hcolors]
  rfl

end RoomForge.Picture.Palette

namespace RoomForge.Room

open RoomForge.Picture

/-! ## What is placed -/

/-- The colors that an object brings: those of its first image. -/
def Object.ownColors (object : Object) : List Color :=
  (object.images.head?.map Image.colors).getD []

/-- The object with the colors of all its images at `base`. -/
def Object.withBase (object : Object) (base : UInt16) : Object :=
  { object with images := object.images.map (·.withBase base) }

/-- The costume with its colors at `base`. -/
def Costume.withBase (costume : Costume) (base : UInt16) : Costume :=
  { costume with base }

section

variable {α : Type} (ownColors : α → List Color) (withBase : α → UInt16 → α)

/-- Tells things where their colors start, behind `used` colors and those of the things before. -/
def placeFrom (used : Nat) : List α → List α
  | [] => []
  | item :: rest =>
    withBase item (UInt16.ofNat used) :: placeFrom (used + (ownColors item).length) rest

end

/-- An object without images brings no colors and is left as it is, so objects are placed like all
other things. -/
theorem placeObjectColors_eq (used : Nat) (objects : List Object) :
    placeObjectColors used objects =
      (placeFrom Object.ownColors Object.withBase used objects,
        objects.flatMap Object.ownColors) := by
  induction objects generalizing used with
  | nil => rfl
  | cons object rest ih =>
    unfold placeObjectColors
    split
    · next hnone =>
      have hsame (base : UInt16) : object.withBase base = object := by
        cases object
        simp_all [Object.withBase]
      have hcolors : object.ownColors = [] := by simp [Object.ownColors, hnone]
      simp [ih, placeFrom, hsame, hcolors]
    · next first others hfirst =>
      have hcolors : object.ownColors = first.colors := by simp [Object.ownColors, hfirst]
      simp [ih, placeFrom, Object.withBase, hcolors]

theorem placeCostumeColors_eq (used : Nat) (costumes : List Costume) :
    placeCostumeColors used costumes =
      (placeFrom Costume.colors Costume.withBase used costumes,
        costumes.flatMap Costume.colors) := by
  induction costumes generalizing used with
  | nil => rfl
  | cons costume rest ih => simp [placeCostumeColors, ih, placeFrom, Costume.withBase]

/-! ## Where colors are found -/

/-- From entry `base` on, a palette has the colors of a thing. -/
def FoundAt (colors : List Color) (base : UInt16) (own : List Color) : Prop :=
  (colors.drop base.toNat).take own.length = own

/-- Behind a palette with `used` colors, the colors of all things are found where the things are
told, as long as the places of all colors can be counted in a word. -/
theorem placeFrom_found {α : Type} (ownColors : α → List Color) (withBase : α → UInt16 → α)
    (front : List Color) (items : List α) (behind : List Color) :
    List.Forall₂ (fun item placed => ∃ base, placed = withBase item base ∧
        ((front ++ items.flatMap ownColors).length < 65536 →
          FoundAt (front ++ items.flatMap ownColors ++ behind) base (ownColors item)))
      items (placeFrom ownColors withBase front.length items) := by
  induction items generalizing front with
  | nil => exact .nil
  | cons item rest ih =>
    have hrest := ih (front ++ ownColors item)
    simp only [List.append_assoc, List.length_append] at hrest
    simp only [List.flatMap_cons, List.append_assoc, List.length_append, placeFrom]
    refine .cons ⟨UInt16.ofNat front.length, rfl, fun hfits => ?_⟩ hrest
    have hbase : (UInt16.ofNat front.length).toNat = front.length :=
      UInt16.toNat_ofNat_of_lt' (by simp only [UInt16.size]; omega)
    rw [FoundAt, hbase, List.drop_left, List.take_left]

/-- The palette of a room with the colors of its objects and costumes. -/
def allColors (palette : Palette) (objects : List Object) (costumes : List Costume) :
    List Color :=
  palette.colors ++ objects.flatMap Object.ownColors ++ costumes.flatMap Costume.colors

variable (palette : Palette) (objects : List Object) (costumes : List Costume)

theorem mergeColors_eq :
    mergeColors palette objects costumes =
      { palette := { palette with colors := allColors palette objects costumes }
        objects := placeFrom Object.ownColors Object.withBase palette.colors.length objects
        costumes := placeFrom Costume.colors Costume.withBase
          (palette.colors ++ objects.flatMap Object.ownColors).length costumes
        overflow :=
          if 256 < (allColors palette objects costumes).length then
            some (.paletteOverflow (allColors palette objects costumes).length 256)
          else none } := by
  simp only [mergeColors, placeObjectColors_eq, placeCostumeColors_eq, Palette.setColors_resize]
  simp only [allColors, List.length_append, List.append_assoc, Palette.capacity]

theorem overflow_eq_none_iff :
    (mergeColors palette objects costumes).overflow = none ↔
      (allColors palette objects costumes).length ≤ 256 := by
  rw [mergeColors_eq]
  split
  · next h => simp [h]
  · next h => simpa using h

/-- Every object is told where its colors start, and they are found there unless there are too many
colors. -/
theorem mergeColors_objects :
    List.Forall₂ (fun object placed => ∃ base, placed = object.withBase base ∧
        ((mergeColors palette objects costumes).overflow = none →
          FoundAt (allColors palette objects costumes) base object.ownColors))
      objects (mergeColors palette objects costumes).objects := by
  have hplaced := placeFrom_found Object.ownColors Object.withBase palette.colors objects
    (costumes.flatMap Costume.colors)
  rw [overflow_eq_none_iff, mergeColors_eq]
  refine hplaced.imp fun object placed => ?_
  rintro ⟨base, rfl, hfound⟩
  refine ⟨base, rfl, fun hfits => hfound ?_⟩
  simp only [allColors, List.length_append] at hfits ⊢
  omega

/-- Every costume is told where its colors start, as the objects are. -/
theorem mergeColors_costumes :
    List.Forall₂ (fun costume placed => ∃ base, placed = costume.withBase base ∧
        ((mergeColors palette objects costumes).overflow = none →
          FoundAt (allColors palette objects costumes) base costume.colors))
      costumes (mergeColors palette objects costumes).costumes := by
  have hplaced := placeFrom_found Costume.colors Costume.withBase
    (palette.colors ++ objects.flatMap Object.ownColors) costumes []
  rw [overflow_eq_none_iff, mergeColors_eq]
  refine hplaced.imp fun costume placed => ?_
  rintro ⟨base, rfl, hfound⟩
  rw [List.append_nil] at hfound
  refine ⟨base, rfl, fun hfits => hfound ?_⟩
  simp only [allColors] at hfits
  omega

end RoomForge.Room

namespace RoomForge.Resource

open RoomForge.Picture RoomForge.Room

/-! ## Colors in the game file -/

/-- A color takes three bytes, so a cut between colors is a cut of their bytes. -/
theorem drop_flatMap_bytes (colors : List Color) (count : Nat) :
    (colors.flatMap Color.bytes).drop (3 * count) = (colors.drop count).flatMap Color.bytes := by
  induction count generalizing colors with
  | zero => rfl
  | succ count ih =>
    cases colors with
    | nil => simp
    | cons color rest => simp [Color.bytes, Nat.mul_succ, ih]

theorem take_flatMap_bytes (colors : List Color) (count : Nat) :
    (colors.flatMap Color.bytes).take (3 * count) = (colors.take count).flatMap Color.bytes := by
  induction count generalizing colors with
  | zero => rfl
  | succ count ih =>
    cases colors with
    | nil => simp
    | cons color rest => simp [Color.bytes, Nat.mul_succ, ih]

/-- From color `base` on, the bytes of a palette are those of a thing's colors. -/
def WrittenAt (payload : Bytes) (base : UInt16) (own : List Color) : Prop :=
  (payload.drop (3 * base.toNat)).take (3 * own.length) = own.flatMap Color.bytes

/-- What is found in a palette is found in its bytes. -/
theorem writtenAt_of_foundAt {colors own : List Color} {base : UInt16}
    (h : FoundAt colors base own) : WrittenAt (colors.flatMap Color.bytes) base own := by
  rw [WrittenAt, drop_flatMap_bytes, take_flatMap_bytes, h]

/-- The palette of a room is found in its block. -/
theorem field?_palette_of_roomBlock {room : RoomForge.Room} {block : Block}
    (h : (roomBlock room).result = .ok block) :
    block.field? 'C' 'L' 'U' 'T' some =
      some ((room.palette.colors.take Palette.capacity).flatMap Color.bytes) := by
  obtain ⟨header, picture, images, hheader, hpicture, himages, hblock⟩ := roomBlock_ok h
  have hgroups := grouped_room hheader hpicture himages
  have hinner : block.inner = (roomGroups room header picture images).flatMap Prod.snd := by
    rw [hblock, Block.inner_container]
  exact hgroups.field?_eq hinner 'C' 'L' 'U' 'T' (by simp [roomGroups, paletteBlock]) rfl

/-- A palette that the game file keeps whole is written with all that is found in it. -/
theorem writtenAt_of_roomBlock {room : RoomForge.Room} {block : Block}
    (hfits : room.palette.colors.length ≤ Palette.capacity)
    (h : (roomBlock room).result = .ok block) :
    ∃ payload, block.field? 'C' 'L' 'U' 'T' some = some payload ∧
      ∀ base own, FoundAt room.palette.colors base own → WrittenAt payload base own := by
  refine ⟨_, field?_palette_of_roomBlock h, fun base own hfound => ?_⟩
  rw [List.take_of_length_le hfits]
  exact writtenAt_of_foundAt hfound

/-- Merging puts the colors of all objects that have images, and then those of all costumes, behind
the colors of the palette, and changes nothing else but where their colors start. It warns if there
are more than 256 colors. If it does not, the palette in the game file has the colors of every
object and costume where they start. -/
theorem merging_places_every_color (palette : Palette) (objects : List Object)
    (costumes : List Costume) :
    let merged := mergeColors palette objects costumes
    let colors := palette.colors ++ objects.flatMap Object.ownColors ++
      costumes.flatMap Costume.colors
    merged.palette = { palette with colors } ∧
    merged.overflow =
      (if 256 < colors.length then some (.paletteOverflow colors.length 256) else none) ∧
    List.Forall₂ (fun object placed => ∃ base, placed = object.withBase base)
      objects merged.objects ∧
    List.Forall₂ (fun costume placed => ∃ base, placed = costume.withBase base)
      costumes merged.costumes ∧
    ∀ (room : RoomForge.Room) (block : Block), merged.overflow = none →
      room.palette = merged.palette → (roomBlock room).result = .ok block →
      ∃ payload, block.field? 'C' 'L' 'U' 'T' some = some payload ∧
        List.Forall₂ (fun object placed => ∃ base, placed = object.withBase base ∧
          WrittenAt payload base object.ownColors) objects merged.objects ∧
        List.Forall₂ (fun costume placed => ∃ base, placed = costume.withBase base ∧
          WrittenAt payload base costume.colors) costumes merged.costumes := by
  intro merged colors
  have hmerged := mergeColors_eq palette objects costumes
  have hobjects := mergeColors_objects palette objects costumes
  have hcostumes := mergeColors_costumes palette objects costumes
  refine ⟨congrArg MergedColors.palette hmerged, congrArg MergedColors.overflow hmerged,
    hobjects.imp fun _ _ => ?_, hcostumes.imp fun _ _ => ?_, ?_⟩
  · rintro ⟨base, rfl, -⟩
    exact ⟨base, rfl⟩
  · rintro ⟨base, rfl, -⟩
    exact ⟨base, rfl⟩
  · intro room block hnone hpalette hblock
    have hcolors : room.palette.colors = allColors palette objects costumes := by
      rw [hpalette]
      exact congrArg (·.palette.colors) hmerged
    have hfits : room.palette.colors.length ≤ Palette.capacity := by
      rw [hcolors]
      exact (overflow_eq_none_iff palette objects costumes).mp hnone
    obtain ⟨payload, hpayload, hwritten⟩ := writtenAt_of_roomBlock hfits hblock
    rw [hcolors] at hwritten
    refine ⟨payload, hpayload, hobjects.imp fun _ _ => ?_, hcostumes.imp fun _ _ => ?_⟩
    · rintro ⟨base, rfl, hfound⟩
      exact ⟨base, rfl, hwritten base _ (hfound hnone)⟩
    · rintro ⟨base, rfl, hfound⟩
      exact ⟨base, rfl, hwritten base _ (hfound hnone)⟩

/-- Objects with two images, with none and with an image without colors. -/
def galleryObjects : List Object :=
  let image (colors : List Color) : Image := { (default : Image) with colors }
  [{ id := 1, name := "lamp", x := 0, y := 0, images := [image [⟨1, 2, 3⟩, ⟨4, 5, 6⟩],
      image [⟨9, 9, 9⟩]] },
    { id := 2, name := "door", x := 0, y := 0 },
    { id := 3, name := "vase", x := 0, y := 0, images := [image []] }]

def galleryCostumes : List Costume :=
  [{ id := 1, name := "guard", colors := [⟨7, 8, 9⟩] },
    { id := 2, name := "cat", colors := [⟨1, 1, 1⟩, ⟨2, 2, 2⟩] }]

/-- The colors of a gallery, with those of its objects and costumes. -/
def galleryColors : MergedColors :=
  mergeColors { colors := [⟨0, 0, 1⟩], cycles := [⟨1, "glow", 0, 0, 4⟩] } galleryObjects
    galleryCostumes

/-- A gallery with its colors merged. -/
def gallery : RoomForge.Room :=
  { (default : RoomForge.Room) with
    palette := galleryColors.palette, objects := galleryColors.objects
    costumes := galleryColors.costumes }

theorem gallery_places_every_color :
    galleryColors.overflow = none ∧ ∃ block payload, (roomBlock gallery).result = .ok block ∧
      block.field? 'C' 'L' 'U' 'T' some = some payload ∧
      List.Forall₂ (fun object placed => ∃ base, placed = object.withBase base ∧
        WrittenAt payload base object.ownColors) galleryObjects gallery.objects ∧
      List.Forall₂ (fun costume placed => ∃ base, placed = costume.withBase base ∧
        WrittenAt payload base costume.colors) galleryCostumes gallery.costumes := by
  have hnone : galleryColors.overflow = none := by decide
  have hok : (roomBlock gallery).result.isOk = true := by decide
  obtain ⟨block, hblock⟩ := exists_ok_of_isOk hok
  obtain ⟨-, -, -, -, hrooms⟩ := merging_places_every_color
    { colors := [⟨0, 0, 1⟩], cycles := [⟨1, "glow", 0, 0, 4⟩] } galleryObjects galleryCostumes
  obtain ⟨payload, hpayload, hobjects, hcostumes⟩ := hrooms gallery block hnone rfl hblock
  exact ⟨hnone, block, payload, hblock, hpayload, hobjects, hcostumes⟩

end RoomForge.Resource
