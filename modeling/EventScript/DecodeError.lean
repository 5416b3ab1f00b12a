import EventScript.Expression

/-!
# Decode errors

Decoding one token fails in three ways. Only an unknown opcode makes the rest of
the script unreadable, since nothing tells how many operands it would take.
-/

set_option autoImplicit false

namespace EventScript

/-- Why a token could not be decoded. -/
inductive DecodeError where
  /-- The opcode takes more operands than there were. -/
  | stackUnderflow (opcode : Opcode) (needed available : Nat)
  /-- The opcode takes constants, and this operand was none. -/
  | invalidOperand (opcode : Opcode) (operand : Expression)
  /-- Nothing is known about the opcode. -/
  | unknownOpcode (opcode : Opcode)
  deriving DecidableEq

namespace DecodeError

/-- The opcode that was being decoded. -/
def opcode : DecodeError → Opcode
  | stackUnderflow opcode _ _ | invalidOperand opcode _ | unknownOpcode opcode => opcode

/-- What was found where a constant belongs, by the name of its sort. -/
def found? : DecodeError → Option String
  | invalidOperand _ operand => some operand.kind.name
  | _ => none

/-- The text of what was found where a constant belongs. -/
def rendered? : DecodeError → Option String
  | invalidOperand _ operand => some operand.text
  | _ => none

/-- Whether no token after this one can be decoded. -/
def endsScript : DecodeError → Bool
  | unknownOpcode _ => true
  | _ => false

/-- The wording of a decode error. -/
def message : DecodeError → String
  | stackUnderflow opcode needed available =>
    "stack underflow decoding " ++ opcode.text ++ ": needs " ++ Numeral.ofNat needed
      ++ " operand(s), " ++ Numeral.ofNat available ++ " available"
  | invalidOperand opcode operand =>
    "invalid operand for " ++ opcode.text ++ ": expected a constant, found "
      ++ operand.kind.name ++ " `" ++ operand.text ++ "`"
  | unknownOpcode opcode => "unknown opcode " ++ opcode.text

end DecodeError

end EventScript
