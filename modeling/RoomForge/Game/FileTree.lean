import RoomForge.Game.Path
import RoomForge.Text.Utf8

set_option autoImplicit false

/-! # Files

The files that the program reads and writes, as a value: directories and files by the names that
lead to them from the root of all files. Looking a path up follows its names one by one, from the
root or from the working directory, so that `a/..` is a place only if `a` is a directory.

There are no links, permissions or changes by others in a tree. Reading and writing one file is a
single step here, so nothing is said about a run that is interrupted.
-/

namespace RoomForge.Game

/-- Why a file can't be read or written. -/
inductive DiskError where
  | notFound
  | isDirectory
  | notDirectory
  | alreadyExists
  /-- A file's bytes spell no text. -/
  | notText
  | nameTooLong
  /-- A path with a zero byte in it. -/
  | zeroByte
  /-- Any other refusal, in the system's words. -/
  | other (text : String)
  deriving DecidableEq, Repr, Inhabited

/-- The wording of a cause. -/
def DiskError.message : DiskError → String
  | .notFound => "No such file or directory (os error 2)"
  | .isDirectory => "Is a directory (os error 21)"
  | .notDirectory => "Not a directory (os error 20)"
  | .alreadyExists => "File exists (os error 17)"
  | .notText => "stream did not contain valid UTF-8"
  | .nameTooLong => "File name too long (os error 36)"
  | .zeroByte => "file name contained an unexpected NUL byte"
  | .other text => text

/-- The names that lead to a file or directory, the last name first. -/
abbrev Place := List String

/-- Directories and files. The working directory and those above it always exist. -/
structure FileTree where
  /-- The working directory. -/
  home : Place := []
  files : List (Place × Bytes) := []
  directories : List Place := []
  deriving Repr, Inhabited

namespace FileTree

/-- The bytes of the file at a place. -/
def file? (tree : FileTree) (place : Place) : Option Bytes :=
  (tree.files.find? fun entry => entry.1 == place).map (·.2)

/-- Whether there is a directory at a place. -/
def isDirectory (tree : FileTree) (place : Place) : Bool :=
  place.isSuffixOf tree.home || tree.directories.contains place

/-- Whether there is a file or a directory at a place. -/
def isTaken (tree : FileTree) (place : Place) : Bool :=
  (tree.file? place).isSome || tree.isDirectory place

/-- The longest name that a file can have, in bytes. -/
def nameLimit : Nat := 255

/-- The longest path that can be looked up, in bytes. -/
def pathLimit : Nat := 4095

/-- One step of a walk from a directory: `.` and an empty name stay there, `..` goes up. -/
def step (tree : FileTree) (place : Place) (name : String) : Except DiskError Place :=
  if !tree.isDirectory place then .error .notDirectory
  else if name = "" ∨ name = "." then .ok place
  else if name = ".." then .ok place.tail
  else if nameLimit < name.utf8ByteSize then .error .nameTooLong
  else if tree.isTaken (name :: place) then .ok (name :: place)
  else .error .notFound

/-- Follows names from a place. -/
def walk (tree : FileTree) (place : Place) (names : List String) : Except DiskError Place :=
  names.foldlM tree.step place

/-- The names of a path that can be looked up. -/
def namesOf (path : Path) : Except DiskError (List String) :=
  if path.text.toList.contains (Char.ofNat 0) then .error .zeroByte
  else if path.text.isEmpty then .error .notFound
  else if pathLimit < path.text.utf8ByteSize then .error .nameTooLong
  else .ok path.names

/-- The directory from which the names of a path are followed. -/
def start (tree : FileTree) (path : Path) : Place :=
  if path.isAbsolute then [] else tree.home

/-- The file or directory at a path. -/
def locate (tree : FileTree) (path : Path) : Except DiskError Place := do
  let names ← namesOf path
  tree.walk (tree.start path) names

/-- Whether there is a file or a directory at a path. -/
def hasPath (tree : FileTree) (path : Path) : Bool :=
  (tree.locate path).isOk

/-- Whether there is a directory at a path. -/
def hasDirectory (tree : FileTree) (path : Path) : Bool :=
  match tree.locate path with
  | .ok place => tree.isDirectory place
  | .error _ => false

/-- The bytes of the file at a path. -/
def read (tree : FileTree) (path : Path) : Except DiskError Bytes := do
  let place ← tree.locate path
  match tree.file? place with
  | some bytes => .ok bytes
  | none => .error .isDirectory

/-- Puts a file at a place, instead of one that was there. -/
def put (tree : FileTree) (place : Place) (bytes : Bytes) : FileTree :=
  { tree with files := (place, bytes) :: tree.files.filter fun entry => entry.1 != place }

/-- Splits the names of a path before its last name. -/
def splitLast (names : List String) : List String × String :=
  (names.dropLast, names.getLast?.getD "")

/-- The names of a path without the empty ones that slashes at its end leave. -/
def trimNames (names : List String) : List String :=
  (names.reverse.dropWhile (· == "")).reverse

/-- Whether a name leads to a directory that needs no name of its own. -/
def isDots (name : String) : Bool :=
  name == "." || name == ".."

/-- Writes a file, whose directory has to exist. A path that ends in a slash is that of a
directory. -/
def write (tree : FileTree) (path : Path) (bytes : Bytes) : Except DiskError FileTree := do
  let names ← namesOf path
  let trimmed := trimNames names
  let (front, name) := splitLast trimmed
  let place ← tree.walk (tree.start path) front
  if !tree.isDirectory place then throw .notDirectory
  if trimmed.length < names.length || isDots name then throw .isDirectory
  if nameLimit < name.utf8ByteSize then throw .nameTooLong
  if tree.isDirectory (name :: place) then throw .isDirectory
  return tree.put (name :: place) bytes

/-- Makes a directory, whose own directory has to exist. -/
def makeDirectory (tree : FileTree) (path : Path) : Except DiskError FileTree := do
  let names ← namesOf path
  match tree.walk (tree.start path) names with
  | .ok _ => throw .alreadyExists
  | .error .notFound =>
    let (front, name) := splitLast names
    if name == "" || isDots name then throw .notFound
    let place ← tree.walk (tree.start path) front
    if !tree.isDirectory place then throw .notDirectory
    return { tree with directories := (name :: place) :: tree.directories }
  | .error e => throw e

end FileTree

end RoomForge.Game
