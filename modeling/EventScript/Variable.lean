import EventScript.Opcode

/-!
# Variables

A script reads the game's memory through variables: an address together with the
width and signedness of what is stored there. Each kind of variable has an opcode
that pushes it.
-/

set_option autoImplicit false

namespace EventScript

/-- How the bytes at an address are read. -/
inductive VariableKind where
  | byte
  | word
  | long
  | signedByte
  | signedWord
  | signedLong
  deriving DecidableEq

namespace VariableKind

/-- Every kind of variable. -/
def all : List VariableKind := [byte, word, long, signedByte, signedWord, signedLong]

/-- The name of a kind in data. -/
def name : VariableKind → String
  | byte => "byte"
  | word => "word"
  | long => "long"
  | signedByte => "signed_byte"
  | signedWord => "signed_word"
  | signedLong => "signed_long"

/-- The name that variables of a kind share in text. -/
def stem : VariableKind → String
  | byte => "var_b"
  | word => "var_w"
  | long => "var_l"
  | signedByte => "var_sb"
  | signedWord => "var_sw"
  | signedLong => "var_sl"

/-- The opcode that pushes a variable of a kind. -/
def pushOpcode : VariableKind → Opcode
  | byte => .pushByte
  | word => .pushWord
  | long => .pushLong
  | signedByte => .pushSignedByte
  | signedWord => .pushSignedWord
  | signedLong => .pushSignedLong

/-- The kind of variable that an opcode pushes. -/
def ofPushOpcode? (opcode : Opcode) : Option VariableKind :=
  all.find? fun kind => kind.pushOpcode == opcode

/-- Kinds of variables and the opcodes that push them correspond. -/
theorem ofPushOpcode?_eq_some_iff (opcode : Opcode) (kind : VariableKind) :
    ofPushOpcode? opcode = some kind ↔ opcode = kind.pushOpcode := by
  constructor
  · intro h
    have := List.find?_some h
    exact (beq_iff_eq.mp this).symm
  · rintro rfl
    cases kind <;> decide

end VariableKind

/-- A location in the game's memory and how it is read. -/
structure Variable where
  kind : VariableKind
  address : UInt16
  deriving DecidableEq

/-- A variable in text: the name of its kind and its address. -/
def Variable.text (v : Variable) : String :=
  v.kind.stem ++ "[" ++ Numeral.hex 4 v.address.toNat ++ "]"

end EventScript
