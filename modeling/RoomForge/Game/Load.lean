import RoomForge.Game.Descriptor
import RoomForge.Game.Loading

set_option autoImplicit false

/-! # Loading a game

The descriptor loader (specification, section 6.3). A game directory holds `game.json`, which names
its rooms. A room has a directory of its own with `room.json`, and in it directories for its
objects, costumes and scripts, each with a manifest that may be missing. Files named by a descriptor
are looked for from the descriptor's directory.

The file of a script is its name with the extension put in place of one that the name may have,
where the section puts the extension behind every name; `Proofs.ScriptFiles` says for which names
this is the same. What is checked on the way is collected in `Proofs.Loaded`.
-/

namespace RoomForge.Game

open RoomForge.Picture RoomForge.Room

/-- The extension of script files. -/
def scriptExtension : String := "sgc"

/-- Reads a file as text. -/
def loadText (path : Path) : Loading String :=
  .read path fun answer =>
    let text := do
      let bytes ← answer
      match Text.ofUtf8? bytes with
      | some text => .ok text
      | none => .error .notText
    .ofExcept (text.mapError fun e => { doing := [.reading path], cause := .disk e })

/-- Reads a descriptor. -/
def loadDescriptor {α : Type} (decode : String → Option α) (path : Path) : Loading α := do
  let text ← loadText path
  match decode text with
  | some value => return value
  | none => .fail { doing := [.parsing path], cause := .descriptor }

variable (format : Format)

/-- Reads the names in a manifest; none if the manifest is missing. -/
def loadManifest (field : String) (path : Path) : Loading (List String) :=
  .find path fun found => do
    if found then loadDescriptor (format.manifest field) path
    else
      .tell .debug ("No " ++ path.text)
      return []

/-- Reads an image. -/
def loadImage (path : Path) : Loading Image := do
  let image ← loadDescriptor format.image path
  let result := Image.ofPixels image.width image.height image.pixels image.colors
  .ofExcept (result.mapError fun fault =>
    { doing := [.checkingImage path], cause := .image fault })

/-- Reads a mask, which has to cover the background. -/
def loadMask (background : Image) (path : Path) : Loading Mask := do
  let declared ← loadDescriptor format.mask path
  if declared.width ≠ background.width ∨ declared.height ≠ background.height then
    .fail { cause := .load (.maskSize path declared.width declared.height background.width
      background.height) }
  else
    let mask ← .ofExcept ((Mask.ofRows declared.rows).mapError fun fault =>
      { doing := [.checkingMask path], cause := .mask fault })
    if mask.width ≠ declared.width ∨ mask.height ≠ declared.height then
      .fail { cause := .load (.maskRows path) }
    else return mask

/-- Numbers color cycles from 1 on. -/
def numberCycles (room : String) (cycles : List CycleDescriptor) :
    Except Failure (List Cycle) :=
  cycles.zipIdx.mapM fun (cycle, index) =>
    if 255 ≤ index then .error { cause := .load (.tooManyCycles room) }
    else .ok ⟨UInt8.ofNat (index + 1), cycle.name, cycle.first, cycle.last, cycle.delay⟩

/-- Numbers walk boxes from 0 on. -/
def numberBoxes (room : String) (boxes : List BoxDescriptor) : Except Failure (List WalkBox) :=
  boxes.zipIdx.mapM fun (box, index) =>
    if 255 < index then .error { cause := .load (.tooManyBoxes room) }
    else .ok ⟨UInt8.ofNat index, box.name, box.upperLeft, box.upperRight, box.lowerRight,
      box.lowerLeft, box.flags, box.scale⟩

/-- Numbers the anims of a costume with `frames` frames from 0 on. Every frame that an anim uses has
to be there. -/
def numberAnims (costume : String) (frames : Nat) (anims : List AnimDescriptor) :
    Except Failure (List Anim) :=
  anims.zipIdx.mapM fun (anim, index) =>
    match anim.frames.find? fun frame => frames ≤ frame.toNat with
    | some frame => .error { cause := .load (.missingFrame costume anim.name frame) }
    | none =>
      if 255 < index then .error { cause := .load (.tooManyAnims costume) }
      else .ok ⟨UInt8.ofNat index, anim.name, anim.frames⟩

/-- Loads the object `name` of a directory of objects. -/
def loadObject (directory : Path) (name : String) : Loading Object := do
  let own := directory.join name
  let object ← loadDescriptor format.object (own.join "object.json")
  let images ← object.images.mapM fun file => loadImage format (own.join file)
  return { id := object.id, name, x := object.x, y := object.y, images }

/-- Loads the objects that a manifest names. -/
def loadObjects (directory : Path) : Loading (List Object) := do
  let names ← loadManifest format "objects" (directory.join "objects.json")
  names.mapM (loadObject format directory)

/-- Loads the costume `name` of a directory of costumes. -/
def loadCostume (directory : Path) (name : String) : Loading Costume := do
  let own := directory.join name
  let costume ← loadDescriptor format.costume (own.join "costume.json")
  let frames ← costume.frames.mapM fun file => loadImage format (own.join file)
  let anims ← .ofExcept (numberAnims name frames.length costume.anims)
  return { id := costume.id, name, colors := costume.colors, frames, anims }

/-- Loads the costumes that a manifest names. -/
def loadCostumes (directory : Path) : Loading (List Costume) := do
  let names ← loadManifest format "costumes" (directory.join "costumes.json")
  names.mapM (loadCostume format directory)

/-- The file of the script `name` in a directory of scripts. -/
def scriptPath (directory : Path) (name : String) : Path :=
  (directory.join name).withExtension scriptExtension

/-- Loads the script `name` of a directory of scripts. -/
def loadScript (directory : Path) (name : String) : Loading ScriptSource := do
  let text ← loadText (scriptPath directory name)
  return ⟨name, text⟩

/-- Loads the scripts that a manifest names. -/
def loadScripts (directory : Path) : Loading (List ScriptSource) := do
  let names ← loadManifest format "scripts" (directory.join "scripts.json")
  names.mapM (loadScript directory)

/-- Loads the room `name` from its directory. -/
def loadRoom (directory : Path) (name : String) : Loading Source := do
  .tell .info s!"Loading room `{name}`..."
  let room ← loadDescriptor format.room (directory.join "room.json")
  let background ← loadImage format (directory.join room.background)
  let masks ← room.masks.mapM fun file => loadMask format background (directory.join file)
  let cycles ← .ofExcept (numberCycles name room.palette.cycles)
  let boxes ← .ofExcept (numberBoxes name room.boxes)
  let objects ← loadObjects format (directory.join "objects")
  let costumes ← loadCostumes format (directory.join "costumes")
  let scripts ← loadScripts format (directory.join "scripts")
  let counts := (toString objects.length ++ " object(s), ") ++
    (toString costumes.length ++ " costume(s), ") ++ (toString scripts.length ++ " script(s)")
  .tell .debug s!"Room `{name}`: {counts}"
  return {
    name
    background
    masks
    palette := ⟨room.palette.colors, cycles⟩
    objects
    boxes
    costumes
    scripts }

/-- Loads the game in a directory. -/
def loadGame (directory : Path) : Loading (List Source) := do
  let names ← loadDescriptor (format.manifest "rooms") (directory.join "game.json")
  .tell .info ("Found " ++ toString names.length ++ " room(s)")
  names.mapM fun name => loadRoom format ((directory.join "rooms").join name) name

end RoomForge.Game
