import EventScript.Listing.Basic
import EventScript.Text.Line
import EventScript.Text.Word

/-!
# Reading listings

The words of a line, up to a comment, are a mnemonic and its arguments. The
mnemonics of the opcodes that place operands say which kind of argument follows.
`NOP`, `BATTLE` and the number of an opcode may be followed by a parameter. A
number stands only for an instruction: that of an opcode which places operands is
not read as its mnemonic.
-/

set_option autoImplicit false

namespace EventScript

namespace Listing

/-- The 16-bit word of a number that fits into one. -/
def unsigned16? (n : Int) : Option UInt16 :=
  if 0 ≤ n ∧ n < 0x10000 then some (UInt16.ofInt n) else none

/-- The signed 32-bit integer of a number that fits into one. -/
def signed32? (n : Int) : Option Int32 :=
  if -0x80000000 ≤ n ∧ n < 0x80000000 then some (Int32.ofInt n) else none

/-- The value of a number that has to fit into a field. -/
def fitted {α : Type} (quantity : Quantity) (fit? : Int → Option α) (word : String) (n : Int) :
    Except Fault α :=
  match fit? n with
  | some value => .ok value
  | none => .error (.outOfRange quantity word)

/-- Reads a number that has to fit into a field. -/
def readNumber {α : Type} (quantity : Quantity) (fit? : Int → Option α) (word : String) :
    Except Fault α :=
  match Numeral.read? word with
  | some n => fitted quantity fit? word n
  | none => .error (.malformedNumber word)

/-- Reads the number of an opcode; a word that is no number was meant as a
mnemonic. -/
def readOpcode (word : String) : Except Fault Opcode :=
  match Numeral.read? word with
  | some n => (fitted .opcode unsigned16? word n).map Opcode.mk
  | none => .error (.unknownMnemonic word)

/-- Reads a calculation by its mnemonic or number. -/
def readCalculation (word : String) : Except Fault Calculation :=
  match (Calculation.ofMnemonic? word).or ((Numeral.read? word).bind Calculation.ofNumber?) with
  | some op => .ok op
  | none => .error (.unknownCalculation word)

/-- The only argument of a mnemonic. -/
def onlyArgument (mnemonic : String) : List String → Except Fault String
  | [word] => .ok word
  | words => .error (.argumentCount mnemonic.toUpper words.length)

/-- The parameter of an instruction, which is zero unless it is given. -/
def readParameter (mnemonic : String) : List String → Except Fault Int32
  | [] => .ok 0
  | [word] => readNumber .parameter signed32? word
  | words => .error (.parameterCount mnemonic.toUpper words.length)

/-- What follows a mnemonic. -/
inductive LineForm where
  /-- The address of a variable. -/
  | memory (kind : VariableKind)
  /-- A constant. -/
  | constant
  /-- A calculation. -/
  | calculation
  /-- At most one parameter of an instruction. -/
  | operation (opcode : Opcode)
  deriving DecidableEq

/-- What follows the mnemonic of an opcode. -/
def LineForm.ofOpcode (opcode : Opcode) : LineForm :=
  match VariableKind.ofPushOpcode? opcode with
  | some kind => .memory kind
  | none =>
    if opcode = .pushConstant then .constant
    else if opcode = .calculate then .calculation
    else .operation opcode

/-- What follows the first word of a line. -/
def readMnemonic (word : String) : Except Fault LineForm :=
  match Opcode.ofMnemonic? word with
  | some opcode => .ok (.ofOpcode opcode)
  | none => (readOpcode word).map .operation

/-- The token of a mnemonic and its arguments. -/
def readWords (mnemonic : String) (arguments : List String) : Except Fault Token := do
  match ← readMnemonic mnemonic with
  | .memory kind =>
    let word ← onlyArgument mnemonic arguments
    return .memory { kind, address := ← readNumber .address unsigned16? word }
  | .constant =>
    let word ← onlyArgument mnemonic arguments
    return .constant (← readNumber .constant signed32? word)
  | .calculation =>
    let word ← onlyArgument mnemonic arguments
    return .calculation (← readCalculation word)
  | .operation opcode => return .operation opcode (← readParameter mnemonic arguments)

/-- A line as far as its comment. -/
def uncommented (line : List Char) : List Char := line.takeWhile (· != '#')

/-- The words of a line, without its comment. -/
def lineWords (line : String) : List String :=
  (Text.wordChars (uncommented line.toList)).map String.ofList

/-- The token of a line, if it has words at all. -/
def readLine (line : String) : Except Fault (Option Token) :=
  match lineWords line with
  | [] => .ok none
  | mnemonic :: arguments => (readWords mnemonic arguments).map some

/-- The tokens of lines, of which the first has the number `number`. -/
def readFrom (number : Nat) : List String → Except ListingError (List ListingEntry)
  | [] => .ok []
  | line :: rest =>
    match readLine line with
    | .error fault => .error { line := number, fault }
    | .ok none => readFrom (number + 1) rest
    | .ok (some token) => (readFrom (number + 1) rest).map ({ line := number, token } :: ·)

/-- Reads a listing as far as its first fault. -/
def parse (source : String) : Except ListingError Listing :=
  (readFrom 1 (Text.lines source)).map Listing.mk

/-- A comment mark ends what counts of a line. -/
theorem uncommented_append_comment (line comment : List Char) :
    uncommented (line ++ '#' :: comment) = uncommented line := by
  induction line with
  | nil => simp [uncommented]
  | cons c rest ih =>
    by_cases h : c = '#'
    · simp [uncommented, h]
    · simpa [uncommented, h] using ih

end Listing

end EventScript
