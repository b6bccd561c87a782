import RoomForge.Game.FileTree

set_option autoImplicit false

/-! # Changing files

What a build does to files, as operations of any kind of disk: a tree of files, or the system's.
What is put together from these operations goes the same way on every disk, so that `Proofs.Builds`,
which speaks of trees of files, covers all of the program but the operations themselves.
-/

namespace RoomForge.Game

/-- What a build does to files. -/
structure Disk (m : Type → Type) where
  /-- Makes a directory, whose own directory has to exist. -/
  makeDirectory : Path → m (Except DiskError Unit)
  /-- Whether there is a directory at a path. -/
  hasDirectory : Path → m Bool
  /-- Writes a file, whose directory has to exist. -/
  write : Path → Bytes → m (Except DiskError Unit)

namespace Disk

variable {m : Type → Type} [Monad m]

/-- What failing to make a directory means: nothing, if it is there. -/
def excuse (disk : Disk m) (path : Path) (e : DiskError) : m (Except DiskError Unit) := do
  if ← disk.hasDirectory path then return .ok () else return .error e

/-- Makes the first of the paths a directory; where its own directory is missing, that is the next
of the paths, which is made before. What was made stays when a later step fails. -/
def makeChain (disk : Disk m) : List Path → m (Except DiskError Unit)
  | [] => return .error .notFound
  | path :: above => do
    if path.text.isEmpty then return .ok ()
    else
      match ← disk.makeDirectory path with
      | .ok () => return .ok ()
      | .error .notFound =>
        match ← disk.makeChain above with
        | .error e => return .error e
        | .ok () =>
          match ← disk.makeDirectory path with
          | .ok () => return .ok ()
          | .error e => disk.excuse path e
      | .error e => disk.excuse path e

/-- Makes a directory and every missing directory above it. -/
def makeDirectories (disk : Disk m) (path : Path) : m (Except DiskError Unit) :=
  disk.makeChain path.ancestors

end Disk

/-- The tree after a change, or as it was if the change failed. -/
def FileTree.after (tree : FileTree) : Except DiskError FileTree → Except DiskError Unit × FileTree
  | .ok changed => (.ok (), changed)
  | .error e => (.error e, tree)

/-- A tree of files as it is changed. -/
def FileTree.disk : Disk (StateM FileTree) where
  makeDirectory path tree := tree.after (tree.makeDirectory path)
  hasDirectory path tree := (tree.hasDirectory path, tree)
  write path bytes tree := tree.after (tree.write path bytes)

end RoomForge.Game
