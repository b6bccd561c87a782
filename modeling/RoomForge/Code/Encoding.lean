import RoomForge.Code.Fault
import RoomForge.Code.Instruction
import RoomForge.Text.Utf8

set_option autoImplicit false

/-! # Bytes of instructions

The encoding of code (specification, table of section 4.3). An instruction is an opcode byte and its
operands, lowest byte first. A jump is written as the distance in bytes from the instruction behind
it to its target, so that code can be moved.

A text is closed by a zero byte and not escaped. One that holds the character zero is written all
the same, and cannot be told from two texts then; `Proofs.Literals` says when code can be read back.
-/

namespace RoomForge.Code

open RoomForge.Script

/-- The opcode of an operator with two operands. -/
def binaryOpcode : BinOp → UInt8
  | .add => 0x10
  | .sub => 0x11
  | .mul => 0x12
  | .div => 0x13
  | .mod => 0x14
  | .eq => 0x15
  | .ne => 0x16
  | .lt => 0x17
  | .le => 0x18
  | .gt => 0x19
  | .ge => 0x1a
  | .and => 0x1b
  | .or => 0x1c

namespace Instr

variable {τ : Type}

/-- The first byte of an instruction. -/
def opcode : Instr τ → UInt8
  | pushWord _ => 0x01
  | pushString _ => 0x02
  | loadLocal _ => 0x03
  | storeLocal _ => 0x04
  | loadGlobal _ => 0x05
  | storeGlobal _ => 0x06
  | binary op => binaryOpcode op
  | unary .neg => 0x1d
  | unary .not => 0x1e
  | jump _ => 0x20
  | jumpIfFalse _ => 0x21
  | startScript _ => 0x30
  | callBuiltin _ _ => 0x31
  | pop => 0x32
  | stop => 0x40

/-- How many bytes an instruction takes. -/
def size : Instr τ → Nat
  | pushWord _ | jump _ | jumpIfFalse _ | loadGlobal _ | storeGlobal _ | startScript _
  | callBuiltin _ _ => 3
  | loadLocal _ | storeLocal _ => 2
  | pushString text => 2 + text.utf8ByteSize
  | binary _ | unary _ | pop | stop => 1

end Instr

/-- The first byte of every instruction, and behind them the number of all bytes. -/
def byteStarts {τ : Type} (instrs : List (Instr τ)) : Array Nat :=
  let (starts, total) := instrs.foldl
    (fun (acc : Array Nat × Nat) instr => (acc.1.push acc.2, acc.2 + instr.size)) (#[], 0)
  starts.push total

/-- The distance from the instruction behind number `index` to number `target`, as a jump writes
it. -/
def jumpDistance (function : String) (starts : Array Nat) (index target : Nat) :
    Except CompileError Int16 :=
  match starts[target]?, starts[index + 1]? with
  | some there, some here =>
    let distance : Int := (there : Int) - here
    if -32768 ≤ distance ∧ distance ≤ 32767 then .ok (Int16.ofInt distance)
    else .error (.tooLarge function)
  | _, _ => .error (.danglingJump function)

/-- The bytes behind the opcode of instruction number `index`. -/
def operandBytes (function : String) (starts : Array Nat) (index : Nat) :
    Instr Nat → Except CompileError Bytes
  | .pushWord value => .ok (Bytes.signedWord value)
  | .pushString text => .ok (Text.utf8 text ++ [0])
  | .loadLocal slot | .storeLocal slot => .ok [slot]
  | .loadGlobal id | .storeGlobal id | .startScript id => .ok (Bytes.word id)
  | .jump target | .jumpIfFalse target =>
    (jumpDistance function starts index target).map Bytes.signedWord
  | .callBuiltin id argc => .ok [id, argc]
  | .binary _ | .unary _ | .pop | .stop => .ok []

/-- The bytes of a function's code. `function` is the name that errors give. -/
def encode (function : String) (instrs : List (Instr Nat)) : Except CompileError Bytes := do
  let starts := byteStarts instrs
  let parts ← instrs.zipIdx.mapM fun (instr, index) => do
    let operands ← operandBytes function starts index instr
    .ok (instr.opcode :: operands)
  .ok parts.flatten

end RoomForge.Code
