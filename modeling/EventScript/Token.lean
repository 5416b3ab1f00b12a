import EventScript.Instruction

/-!
# Tokens

A script arrives as a list of tokens. Three kinds of token work on the operand
stack and the fourth decodes an instruction. In text a token is one line of a
listing.
-/

set_option autoImplicit false

namespace EventScript

/-- One step of a script. -/
inductive Token where
  /-- Pushes a constant. -/
  | constant (value : Int32)
  /-- Pushes a variable. -/
  | memory (v : Variable)
  /-- Replaces the topmost operands by a calculation on them. -/
  | calculation (op : Calculation)
  /-- Decodes an instruction. -/
  | operation (opcode : Opcode) (parameter : Int32)
  deriving DecidableEq

namespace Token

/-- The first word of the line of a token. -/
def mnemonic : Token → String
  | constant _ => Opcode.pushConstant.name
  | memory v => v.kind.pushOpcode.name
  | calculation _ => Opcode.calculate.name
  | operation opcode _ => opcode.name

/-- The second word of the line of a token. -/
def argument : Token → String
  | constant value => Numeral.ofInt value.toInt
  | memory v => Numeral.hex 4 v.address.toNat
  | calculation op => op.mnemonic
  | operation _ parameter => Numeral.ofInt parameter.toInt

/-- A token in the syntax of listings. -/
def text (token : Token) : String := token.mnemonic ++ " " ++ token.argument

end Token

/-- The tokens that push an expression: those of its operands, the left one first,
then its calculation. -/
def Expression.encode : Expression → List Token
  | constant value => [.constant value]
  | memory v => [.memory v]
  | unary op operand => operand.encode ++ [.calculation op]
  | binary op left right => left.encode ++ right.encode ++ [.calculation op]

/-- The tokens that decode to an instruction: its operands in the order of their
declaration, then its opcode. -/
def Instruction.encode : Instruction → List Token
  | nop => [.operation .nop 0]
  | battle b =>
    [.constant (Int32.ofNat b.encounter.toNat), .constant (Int32.ofNat b.flags.bits.toNat),
      .operation .battle 0]

/-- A part of a script that is being assembled. -/
inductive Fragment where
  /-- An instruction together with its operands. -/
  | instruction (i : Instruction)
  /-- A token as it stands. -/
  | token (t : Token)
  deriving DecidableEq

/-- The tokens of a part of a script. -/
def Fragment.tokens : Fragment → List Token
  | instruction i => i.encode
  | token t => [t]

/-- The tokens of a script with the given parts. -/
def assemble (fragments : List Fragment) : List Token :=
  fragments.flatMap Fragment.tokens

/-- Assembling goes part by part. -/
@[simp]
theorem assemble_append (first second : List Fragment) :
    assemble (first ++ second) = assemble first ++ assemble second := by
  simp [assemble]

end EventScript
