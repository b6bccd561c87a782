set_option autoImplicit false

/-! # Paths

A path is a text in which slashes separate names. Paths are kept and shown as they were put
together; nothing is simplified until a file is looked up. `withExtension` replaces an extension
that is there already.
-/

namespace RoomForge.Game

/-- The place of a file, as text. -/
structure Path where
  text : String
  deriving DecidableEq, Repr, Inhabited

namespace Path

/-- Whether a path starts from the root of all files. -/
def isAbsolute (path : Path) : Bool :=
  path.text.toList.head? == some '/'

/-- The path `name`, seen from `path`. -/
def join (path : Path) (name : String) : Path :=
  if (Path.mk name).isAbsolute then ⟨name⟩
  else
    match path.text.toList.getLast? with
    | none => ⟨name⟩
    | some '/' => ⟨path.text ++ name⟩
    | some _ => ⟨path.text ++ "/" ++ name⟩

/-- The characters of a path from its end, without slashes and single dots at the end. -/
def trimBack : List Char → List Char
  | '/' :: rest => trimBack rest
  | '.' :: '/' :: rest => trimBack rest
  | cs => cs

/-- The last name in a path, and from its end what stands before the name; neither for a path
that ends in no name of its own. -/
def splitName? (path : Path) : Option (String × List Char) :=
  let back := trimBack path.text.toList.reverse
  let name := (back.takeWhile (· ≠ '/')).reverse
  if name = [] ∨ name = ['.'] ∨ name = ['.', '.'] then none
  else some (String.ofList name, back.dropWhile (· ≠ '/'))

/-- A name without its extension: what stands before its last dot, unless the name starts with
it. -/
def stem (name : List Char) : List Char :=
  match name.reverse.dropWhile (· ≠ '.') with
  | '.' :: c :: rest => (c :: rest).reverse
  | _ => name

/-- The path with `extension` as the extension of its last name. The old extension is cut off at the
end of the path first; where that leaves `..`, which leads up and is no name, nothing is added. -/
def withExtension (path : Path) (extension : String) : Path :=
  match path.splitName? with
  | none => path
  | some (name, front) =>
    let kept := stem name.toList
    let ends := front.length + name.length = path.text.length
    if kept = ['.'] ∧ ends then ⟨String.ofList (front.reverse ++ ['.', '.'])⟩
    else ⟨String.ofList (front.reverse ++ kept) ++ "." ++ extension⟩

/-- The path of the directory that holds a path's last name. -/
def parent? (path : Path) : Option Path :=
  let root := if path.isAbsolute then "/" else ""
  match trimBack path.text.toList.reverse with
  | [] => none
  | back =>
    match trimBack (back.dropWhile (· ≠ '/')) with
    | [] => some ⟨root⟩
    | front => some ⟨String.ofList front.reverse⟩

/-- A path and the directories above it. `count` bounds their number. -/
def ancestorsUpTo : (count : Nat) → Path → List Path
  | 0, path => [path]
  | count + 1, path =>
    match path.parent? with
    | none => [path]
    | some parent => path :: ancestorsUpTo count parent

/-- A path and the directories above it, from the inside out. -/
def ancestors (path : Path) : List Path :=
  ancestorsUpTo path.text.length path

/-- The names of a path, as its slashes separate them. -/
def names (path : Path) : List String :=
  (path.text.toList.splitOn '/').map String.ofList

end Path

end RoomForge.Game
