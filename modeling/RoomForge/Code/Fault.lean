import RoomForge.Script.Fault

set_option autoImplicit false

/-! # What stops a compilation

`CompileError` lists the causes that stop the compilation of a room, and `CompileError.message`
words them. `Warning` lists what is reported while the compilation goes on (specification, section
7).

Beyond that section there are two causes that no report is made of: `CompileError.isFatal` says that
they end the whole run on the spot. One is a jump to an instruction that does not exist, which never
occurs in compiled code (`Proofs.Jumps`). The other is the end of the numbers for functions, which
is only reached by rooms with more functions than there are numbers (`Proofs.Numbering`).
-/

namespace RoomForge.Code

open RoomForge.Script

/-- The place that a fault of a script's meaning is reported at: the function being compiled and a
line. -/
structure Site where
  function : String
  line : Nat
  deriving DecidableEq, Repr, Inhabited

/-- Uses of a name or a statement where it has no meaning. -/
inductive Misuse where
  /-- An assignment to a name that is no variable. -/
  | assigned (name : String)
  /-- A function used as a value. -/
  | notCalled (name : String)
  /-- A call of something that is no function. -/
  | notFunction (name : String)
  /-- A call of a function that no script can start. -/
  | unnumbered (name : String)
  | breakOutside
  | continueOutside
  deriving DecidableEq, Repr, Inhabited

/-- The wording of a misuse. -/
def Misuse.message : Misuse → String
  | .assigned name => s!"can't assign to `{name}`"
  | .notCalled name => s!"`{name}` is a function, call it with `{name}()`"
  | .notFunction name => s!"`{name}` is not a function"
  | .unnumbered name => s!"`{name}` has no script number"
  | .breakOutside => "`break` outside of a loop"
  | .continueOutside => "`continue` outside of a loop"

/-- The causes that stop the compilation of a room. -/
inductive CompileError where
  /-- A script's text is malformed. -/
  | malformed (script : String) (error : SyntaxError)
  /-- A name that nothing declares. -/
  | unresolved (site : Site) (name : String)
  /-- A function with a role of its own in the room is declared as inlined. -/
  | reservedInlined (name : String)
  /-- A name declared twice. -/
  | duplicate (name : String)
  | misuse (site : Site) (fault : Misuse)
  /-- A call with the wrong number of arguments. -/
  | arity (site : Site) (name : String) (expected found : Nat)
  /-- A call used as a value although it leaves none. -/
  | noValue (site : Site) (name : String)
  /-- A number outside of the signed words. -/
  | notWord (site : Site) (value : Int)
  | tooManyLocals (function : String)
  /-- An inlined function that ends up in its own expansion. -/
  | recursiveInline (name : String)
  /-- A jump further than a signed word reaches. -/
  | tooLarge (function : String)
  /-- A jump to an instruction that does not exist. -/
  | danglingJump (function : String)
  /-- A function that would use up the last number of a room's functions. -/
  | outOfNumbers (function : String)
  | tooManyRooms
  deriving DecidableEq, Repr, Inhabited

/-- The layout of a message about a place in a function. -/
def siteMessage (site : Site) (message : String) : String :=
  "function `" ++ site.function ++ "`, " ++ lineMessage site.line message

/-- The layout of a message about a script. -/
def scriptMessage (script message : String) : String :=
  s!"script `{script}`, {message}"

/-- The wording of a cause. -/
def CompileError.message : CompileError → String
  | .malformed script error => scriptMessage script error.message
  | .unresolved site name => siteMessage site s!"unresolved symbol `{name}`"
  | .reservedInlined name => s!"function `{name}` is reserved and can't be inlined"
  | .duplicate name => s!"symbol `{name}` is declared more than once"
  | .misuse site fault => siteMessage site fault.message
  | .arity site name expected found =>
    siteMessage site s!"`{name}` expects {expected} argument(s), got {found}"
  | .noValue site name => siteMessage site s!"`{name}` doesn't return a value"
  | .notWord site value => siteMessage site s!"{value} doesn't fit in a word"
  | .tooManyLocals function => s!"function `{function}` uses more than 256 local variables"
  | .recursiveInline name => s!"inlined function `{name}` ends up calling itself"
  | .tooLarge function => s!"function `{function}` is too large, a jump doesn't fit in 16 bits"
  | .danglingJump function => s!"function `{function}` jumps to a missing instruction"
  | .outOfNumbers function => s!"no number is left behind that of function `{function}`"
  | .tooManyRooms => "no room IDs left, a game holds at most 255 rooms"

/-- The causes that end the whole run on the spot, where others are reported. -/
def CompileError.isFatal : CompileError → Bool
  | .danglingJump _ | .outOfNumbers _ => true
  | _ => false

/-- The place that an error is reported at, if it has one. -/
def CompileError.site? : CompileError → Option Site
  | .unresolved site .. | .misuse site .. | .arity site .. | .noValue site .. | .notWord site .. =>
    some site
  | _ => none

/-- What is reported although the room compiles. -/
inductive Warning where
  /-- The merged palette has more colors than the file keeps. -/
  | paletteOverflow (required capacity : Nat)
  /-- The room has none of a kind of resource. -/
  | missingResource (kind : String)
  /-- The room lacks a function it needs, and gets an empty one. -/
  | missingFunction (name : String)
  deriving DecidableEq, Repr, Inhabited

/-- The wording of a warning. -/
def Warning.message : Warning → String
  | .paletteOverflow required capacity =>
    s!"the local palette needs {required} colors, only {capacity} fit"
  | .missingResource kind => s!"room doesn't contain any {kind}"
  | .missingFunction name => s!"couldn't find the `{name}` function, using an empty one"

end RoomForge.Code
