import EventScript.BattleFlags
import EventScript.OperandStack

/-!
# Instructions

A decoded script is a list of instructions. A battle takes two constants from the
stack: the flags, which were pushed last, and below them the encounter. Of either
constant only the low bits that fit are kept.
-/

set_option autoImplicit false

namespace EventScript

/-- A battle to begin. -/
structure Battle where
  /-- The number of the encounter. -/
  encounter : UInt16
  flags : BattleFlags
  deriving DecidableEq

namespace Battle

/-- How many operands a battle takes. -/
def arity : Nat := 2

/-- The battle of two constants, of which the low 16 and the low 8 bits count. -/
def ofConstants (encounter flags : Int32) : Battle where
  encounter := UInt16.ofInt encounter.toInt
  flags := ⟨UInt8.ofInt flags.toInt⟩

/-- Takes the operands of a battle from the stack. Too few operands are left where
they are. -/
def decode : DecodeM Battle := do
  DecodeM.require .battle arity
  let flags ← DecodeM.popConstant .battle
  let encounter ← DecodeM.popConstant .battle
  return ofConstants encounter flags

/-- A battle in a disassembly. -/
def text (battle : Battle) : String :=
  "BATTLE(encounter: " ++ Numeral.ofNat battle.encounter.toNat ++ ", flags: "
    ++ battle.flags.text ++ ")"

/-- A stack of fewer than two operands fails and stays. -/
theorem runOn_decode_of_size_lt {stack : OperandStack} (h : stack.size < arity) :
    decode.runOn stack = (.error (.stackUnderflow .battle arity stack.size), stack) := by
  rw [decode, DecodeM.runOn_bind, DecodeM.runOn_require, if_pos h]

/-- Two constants on top are taken and make the battle. -/
theorem runOn_decode_constants (flags encounter : Int32) (rest : List Expression) :
    decode.runOn ⟨.constant flags :: .constant encounter :: rest⟩ =
      (.ok (ofConstants encounter flags), ⟨rest⟩) := rfl

end Battle

/-- An instruction of a decoded script. -/
inductive Instruction where
  | nop
  | battle (battle : Battle)
  deriving DecidableEq

namespace Instruction

/-- The opcode that decodes to an instruction. -/
def opcode : Instruction → Opcode
  | nop => .nop
  | battle _ => .battle

/-- An instruction in a disassembly. -/
def text : Instruction → String
  | nop => "NOP"
  | battle b => b.text

end Instruction

end EventScript
