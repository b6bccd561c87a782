import Std.Data.TreeMap
import RoomForge.Code.Engine
import RoomForge.Log
import RoomForge.Room.Basic

set_option autoImplicit false

/-! # The names of a room

The declaration registry (specification, sections 2 and 3). A registry holds the named constants of
a room, each name once, in the order in which they were entered: those of the engine, then those of
the room's resources, then those of its scripts.

The entries are what a registry means: `index_eq`, which every registry carries, ties its index to
them, and `find?_eq` says that a constant is found by its name among them. A registry that refuses a
constant is handed back as it was.
-/

namespace RoomForge.Room

open RoomForge.Code RoomForge.Picture RoomForge.Script

/-- The named constants of a room, in the order in which they were entered. -/
structure Registry where
  entries : Array Constant := #[]
  /-- Where the constants stand among the entries, by their names. -/
  index : Std.TreeMap String Nat := {}
  /-- The index leads to the first constant of a name. -/
  index_eq : ∀ name : String,
    index[name]? = entries.findIdx? fun constant => constant.name == name := by simp

namespace Registry

instance : Inhabited Registry := ⟨{}⟩

/-- The constant `name`. -/
def find? (registry : Registry) (name : String) : Option Constant :=
  registry.index[name]?.bind fun place => registry.entries[place]?

/-- A constant is found by its name among the entries. -/
theorem find?_eq (registry : Registry) (name : String) :
    registry.find? name = registry.entries.find? fun constant => constant.name == name := by
  rw [find?, registry.index_eq name, Array.find?_eq_bind_findIdx?_getElem?]

/-- Adds a constant whose name is free. -/
def push (registry : Registry) (constant : Constant)
    (free : registry.find? constant.name = none) : Registry where
  entries := registry.entries.push constant
  index := registry.index.insert constant.name registry.entries.size
  index_eq name := by
    rw [find?_eq, Array.find?_eq_none] at free
    rw [Std.TreeMap.getElem?_insert, Array.findIdx?_push, registry.index_eq name]
    by_cases h : constant.name = name
    · subst h
      have hnone : registry.entries.findIdx? (fun other => other.name == constant.name) = none :=
        Array.findIdx?_eq_none_iff.mpr (by simpa using free)
      simp [hnone]
    · simp [h]

/-- Enters a constant, unless its name is taken: the registry afterwards, and how that ended. -/
def insert (registry : Registry) (constant : Constant) : Registry × Except CompileError Unit :=
  match free : registry.find? constant.name with
  | some _ => (registry, .error (.duplicate constant.name))
  | none => (registry.push constant free, .ok ())

/-- Enters constants one after the other, up to the first whose name is taken. -/
def insertAll (registry : Registry) : List Constant → Except CompileError Registry
  | [] => .ok registry
  | constant :: rest =>
    match registry.insert constant with
    | (registry, .ok ()) => registry.insertAll rest
    | (_, .error e) => .error e

/-- The constants of a room's resources: its cycles, its objects, each costume followed by its
anims, and its walk boxes, with their numbers as values. -/
def resourceConstants (source : Source) : List Constant :=
  let cycles := source.palette.cycles.map fun cycle => ⟨cycle.name, cycle.id.toNat⟩
  let objects := source.objects.map fun object => ⟨object.name, object.id.toNat⟩
  let costumes := source.costumes.flatMap fun costume =>
    ⟨costume.name, costume.id.toNat⟩ :: costume.anims.map fun anim => ⟨anim.name, anim.id.toNat⟩
  let boxes := source.boxes.map fun box => ⟨box.name, box.id.toNat⟩
  cycles ++ objects ++ costumes ++ boxes

/-- The registry of a room before its scripts are read. -/
def ofResources (source : Source) : Report CompileError Registry := do
  let engine ← .ofExcept (insertAll {} Engine.constants)
  .say .debug "Adding room local resource declarations..."
  .ofExcept (engine.insertAll (resourceConstants source))

end Registry

end RoomForge.Room
