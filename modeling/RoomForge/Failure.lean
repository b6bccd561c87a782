import RoomForge.Code.Fault
import RoomForge.Game.FileTree
import RoomForge.Log
import RoomForge.Picture.Image
import RoomForge.Picture.Mask
import RoomForge.Resource.Block

set_option autoImplicit false

/-! # Failures

A failure is a cause and what the program was doing when it met it, from the outside in
(specification, section 7). `Failure.report` words the whole chain.

What is wrong with a descriptor has no wording of its own: of all malformed descriptors the text
says the same, since it belongs to the format in which descriptors are written.
-/

namespace RoomForge

open RoomForge.Code RoomForge.Game RoomForge.Picture RoomForge.Resource

/-- What is wrong with a descriptor that can be read. -/
inductive LoadFault where
  /-- A mask of another size than the background of its room. -/
  | maskSize (path : Path) (width height backgroundWidth backgroundHeight : UInt16)
  /-- A mask whose rows have another size than its descriptor says. -/
  | maskRows (path : Path)
  | tooManyCycles (room : String)
  | tooManyBoxes (room : String)
  /-- An anim that uses a frame its costume doesn't have. -/
  | missingFrame (costume anim : String) (frame : UInt8)
  | tooManyAnims (costume : String)
  deriving DecidableEq, Repr, Inhabited

/-- A size as messages show it. -/
def sizeText (width height : UInt16) : String :=
  toString width ++ "x" ++ toString height

/-- The wording of a fault. -/
def LoadFault.message : LoadFault → String
  | .maskSize path width height backgroundWidth backgroundHeight =>
    "mask " ++ path.text ++ " is " ++ sizeText width height ++ ", the background is " ++
      sizeText backgroundWidth backgroundHeight
  | .maskRows path => "mask " ++ path.text ++ " rows don't match its declared size"
  | .tooManyCycles room => s!"room `{room}` has too many cycles"
  | .tooManyBoxes room => s!"room `{room}` has too many boxes"
  | .missingFrame costume anim frame =>
    s!"costume `{costume}`: anim `{anim}` uses missing frame {frame}"
  | .tooManyAnims costume => s!"costume `{costume}` has too many anims"

/-- What makes the program fail. -/
inductive Cause where
  | compile (e : CompileError)
  | block (e : BlockError)
  | disk (e : DiskError)
  /-- A descriptor that is no JSON, or not of the shape it should have. -/
  | descriptor
  | image (fault : ImageFault)
  | mask (fault : MaskFault)
  | load (fault : LoadFault)
  deriving DecidableEq, Repr, Inhabited

/-- The wording of a cause. A malformed script is followed by its own fault; what is wrong with a
descriptor has no wording of its own. -/
def Cause.messages : Cause → List String
  | .compile (.malformed script e) => [CompileError.message (.malformed script e), e.message]
  | .compile e => [e.message]
  | .block e => [e.message]
  | .disk e => [e.message]
  | .descriptor => ["<json>"]
  | .image fault => [fault.message]
  | .mask fault => [fault.message]
  | .load fault => [fault.message]

/-- What the program was doing. -/
inductive Doing where
  | loadingGame (input : Path)
  | reading (path : Path)
  | parsing (path : Path)
  | checkingImage (path : Path)
  | checkingMask (path : Path)
  | compilingRooms
  | compilingRoom (name : String)
  | creating (directory : Path)
  | writingResources
  | packingRoom (name : String)
  | serializing
  | writing (path : Path)
  deriving DecidableEq, Repr, Inhabited

/-- The wording of what the program was doing. -/
def Doing.message : Doing → String
  | .loadingGame input => "Loading game from " ++ input.text
  | .reading path => "Reading " ++ path.text
  | .parsing path => "Parsing " ++ path.text
  | .checkingImage path => "Invalid image " ++ path.text
  | .checkingMask path => "Invalid mask " ++ path.text
  | .compilingRooms => "Compiling rooms"
  | .compilingRoom name => s!"Failed to compile room `{name}`"
  | .creating directory => "Creating " ++ directory.text
  | .writingResources => "Writing resource file"
  | .packingRoom name => s!"Packing room `{name}`"
  | .serializing => "Serializing resource file"
  | .writing path => "Writing " ++ path.text

/-- A cause and what the program was doing, from the outside in. -/
structure Failure where
  doing : List Doing := []
  cause : Cause
  deriving DecidableEq, Repr, Inhabited

namespace Failure

/-- The failure as met while doing something. -/
def during (doing : Doing) (failure : Failure) : Failure :=
  { failure with doing := doing :: failure.doing }

/-- Whether the run was ended on the spot. -/
def isFatal (failure : Failure) : Bool :=
  match failure.cause with
  | .compile e => e.isFatal
  | _ => false

/-- The messages of a failure, from the outside in. -/
def messages (failure : Failure) : List String :=
  failure.doing.map Doing.message ++ failure.cause.messages

/-- A message with the lines behind its first indented. -/
def indented (front follow message : String) : String :=
  front ++ ("\n" ++ follow).intercalate (message.splitOn "\n")

/-- A cause with its number, among several causes. -/
def numbered (index : Nat) (message : String) : String :=
  let digits := toString index
  let pad := String.ofList (List.replicate (5 - digits.length) ' ')
  indented (pad ++ digits ++ ": ") "       " message

/-- The text that a failed run ends with. -/
def report (failure : Failure) : String :=
  match failure.messages with
  | [] => "Error: \n"
  | [only] => s!"Error: {only}\n"
  | [first, cause] => s!"Error: {first}\n\nCaused by:\n" ++ indented "    " "    " cause ++ "\n"
  | first :: causes =>
    let lines := causes.zipIdx.map fun (message, index) => numbered index message ++ "\n"
    s!"Error: {first}\n\nCaused by:\n" ++ String.join lines

end Failure

/-- Puts what the program was doing around a failure of a report. -/
def Report.doing {α : Type} (report : Report Failure α) (doing : Doing) : Report Failure α :=
  report.mapError (·.during doing)

end RoomForge
