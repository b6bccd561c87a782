import RoomForge.Script.Tree

set_option autoImplicit false

/-! # Instructions

The instruction set of room scripts (specification, table of section 4.3): a stack machine over
words and strings. The type of a jump's target is a parameter, because the same instructions are
used while code is put together and when every target is the index of an instruction; `mapTarget`
goes from one to the other.
-/

namespace RoomForge.Code

open RoomForge.Script

/-- One instruction, with jump targets of type `τ`. -/
inductive Instr (τ : Type) where
  | pushWord (value : Int16)
  | pushString (text : String)
  | loadLocal (slot : UInt8)
  | storeLocal (slot : UInt8)
  | loadGlobal (id : UInt16)
  | storeGlobal (id : UInt16)
  | binary (op : BinOp)
  | unary (op : UnOp)
  | jump (target : τ)
  | jumpIfFalse (target : τ)
  /-- Starts another script of the room. -/
  | startScript (number : UInt16)
  | callBuiltin (id argc : UInt8)
  /-- Drops the value on top of the stack. -/
  | pop
  /-- Ends the script. -/
  | stop
  deriving DecidableEq, Repr, Inhabited

namespace Instr

variable {τ σ : Type}

/-- Replaces the target of a jump. -/
def mapTarget (f : τ → σ) : Instr τ → Instr σ
  | pushWord value => pushWord value
  | pushString text => pushString text
  | loadLocal slot => loadLocal slot
  | storeLocal slot => storeLocal slot
  | loadGlobal id => loadGlobal id
  | storeGlobal id => storeGlobal id
  | binary op => binary op
  | unary op => unary op
  | jump target => jump (f target)
  | jumpIfFalse target => jumpIfFalse (f target)
  | startScript number => startScript number
  | callBuiltin id argc => callBuiltin id argc
  | pop => pop
  | stop => stop

/-- The target of a jump. -/
def target? : Instr τ → Option τ
  | jump target | jumpIfFalse target => some target
  | _ => none

theorem mapTarget_mapTarget {ρ : Type} (f : τ → σ) (g : σ → ρ) (instr : Instr τ) :
    (instr.mapTarget f).mapTarget g = instr.mapTarget (fun target => g (f target)) := by
  cases instr <;> rfl

@[simp] theorem target?_mapTarget (f : τ → σ) (instr : Instr τ) :
    (instr.mapTarget f).target? = instr.target?.map f := by
  cases instr <;> rfl

end Instr

end RoomForge.Code
