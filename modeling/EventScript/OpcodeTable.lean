import EventScript.Instruction

/-!
# The opcode table

The table tells for each opcode of an instruction how many operands it takes and
how it is decoded. An opcode without an entry is unknown, even if it has a
mnemonic: those that place operands on the stack are no instructions.
-/

set_option autoImplicit false

namespace EventScript

/-- What is known about the opcode of an instruction. -/
structure OpcodeEntry where
  opcode : Opcode
  /-- How many operands the instruction takes. -/
  arity : Nat
  /-- Decodes the instruction for the parameter of its token. -/
  decode : Int32 → DecodeM Instruction

/-- An entry as a record for inspection; the opcode is in decimal. -/
def OpcodeEntry.text (entry : OpcodeEntry) : String :=
  let mnemonic :=
    match entry.opcode.mnemonic? with
    | some word => "Some(\"" ++ word ++ "\")"
    | none => "None"
  "OpcodeEntry \x7b opcode: Opcode(" ++ Numeral.ofNat entry.opcode.code.toNat
    ++ "), mnemonic: " ++ mnemonic ++ ", arity: " ++ Numeral.ofNat entry.arity ++ " \x7d"

namespace OpcodeTable

/-- The entries of the table, by ascending opcode. No instruction uses its
parameter. -/
def entries : List OpcodeEntry :=
  [{ opcode := .nop, arity := 0, decode := fun _ => pure .nop },
    { opcode := .battle, arity := Battle.arity, decode := fun _ => .battle <$> Battle.decode }]

/-- The entry of an opcode. -/
def lookup? (opcode : Opcode) : Option OpcodeEntry :=
  entries.find? fun entry => entry.opcode == opcode

/-- Whether the table has an entry for an opcode. -/
def contains (opcode : Opcode) : Bool := (lookup? opcode).isSome

/-- Decodes an instruction by its opcode. An unknown opcode and a stack with fewer
operands than the instruction takes are refused before anything is popped. -/
def decode (opcode : Opcode) (parameter : Int32) : DecodeM Instruction :=
  match lookup? opcode with
  | none => throw (.unknownOpcode opcode)
  | some entry => do
    DecodeM.require opcode entry.arity
    entry.decode parameter

/-- The opcodes in the table are those of the two instructions. -/
theorem contains_iff (opcode : Opcode) :
    contains opcode = true ↔ opcode = .nop ∨ opcode = .battle := by
  simp only [contains, lookup?, entries, List.find?]
  by_cases hn : opcode = .nop
  · subst hn; decide
  · by_cases hb : opcode = .battle
    · subst hb; decide
    · simp [beq_false_of_ne (Ne.symm hn), beq_false_of_ne (Ne.symm hb), hn, hb]

end OpcodeTable

end EventScript
