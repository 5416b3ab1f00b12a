import EventScript.Text.Numeral

/-!
# Opcodes

An opcode is the 16-bit number of an operation in script bytecode. Ten of them
have a mnemonic. Eight of these place operands on the stack and two, `NOP` and
`BATTLE`, are instructions; any other opcode has a number only.
-/

set_option autoImplicit false

namespace EventScript

/-- The number of an operation in script bytecode. -/
structure Opcode where
  code : UInt16
  deriving DecidableEq

namespace Opcode

/-- Does nothing. -/
def nop : Opcode := ⟨0x000⟩

/-- Replaces the topmost operands by a calculation on them. -/
def calculate : Opcode := ⟨0x001⟩

/-- Pushes a constant. -/
def pushConstant : Opcode := ⟨0x007⟩

/-- Pushes an unsigned byte of memory. -/
def pushByte : Opcode := ⟨0x00a⟩

/-- Pushes an unsigned word of memory. -/
def pushWord : Opcode := ⟨0x00c⟩

/-- Pushes an unsigned long word of memory. -/
def pushLong : Opcode := ⟨0x00e⟩

/-- Pushes a signed byte of memory. -/
def pushSignedByte : Opcode := ⟨0x010⟩

/-- Pushes a signed word of memory. -/
def pushSignedWord : Opcode := ⟨0x011⟩

/-- Pushes a signed long word of memory. -/
def pushSignedLong : Opcode := ⟨0x012⟩

/-- Begins a battle. -/
def battle : Opcode := ⟨0x069⟩

/-- The opcodes that have a mnemonic, ascending. -/
def mnemonics : List (Opcode × String) :=
  [(nop, "NOP"), (calculate, "CAL"), (pushConstant, "PSHN_L"), (pushByte, "PSHM_B"),
    (pushWord, "PSHM_W"), (pushLong, "PSHM_L"), (pushSignedByte, "PSHSM_B"),
    (pushSignedWord, "PSHSM_W"), (pushSignedLong, "PSHSM_L"), (battle, "BATTLE")]

/-- The mnemonic of an opcode that has one. -/
def mnemonic? (opcode : Opcode) : Option String :=
  mnemonics.lookup opcode

/-- The opcode of a mnemonic, whose ASCII letters may be in either case. -/
def ofMnemonic? (word : String) : Option Opcode :=
  (mnemonics.find? fun entry => entry.2 == word.toUpper).map (·.1)

/-- The number of an opcode, in at least three hexadecimal digits. -/
def number (opcode : Opcode) : String :=
  Numeral.hex 3 opcode.code.toNat

/-- The shortest name of an opcode: its mnemonic, or else its number. -/
def name (opcode : Opcode) : String :=
  opcode.mnemonic?.getD opcode.number

/-- An opcode in a message: its number, behind the mnemonic if there is one. -/
def text (opcode : Opcode) : String :=
  match opcode.mnemonic? with
  | some mnemonic => mnemonic ++ " (" ++ opcode.number ++ ")"
  | none => opcode.number

end Opcode

end EventScript
