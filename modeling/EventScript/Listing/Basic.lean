import EventScript.Token

/-!
# Listings

A listing is a script as text, one token a line. Blank lines and comments, which
begin with `#`, may stand between, so a listing keeps for each token the line that
it came from. A line that is no token is a fault.
-/

set_option autoImplicit false

namespace EventScript

/-- A token and the line that it came from. -/
structure ListingEntry where
  /-- The number of the line, from one. -/
  line : Nat
  token : Token
  deriving DecidableEq

/-- The tokens of a listing in order. -/
structure Listing where
  entries : List ListingEntry
  deriving DecidableEq

namespace Listing

/-- The tokens of a listing. -/
def tokens (listing : Listing) : List Token := listing.entries.map (·.token)

/-- The lines that the tokens of a listing came from. -/
def lines (listing : Listing) : List Nat := listing.entries.map (·.line)

/-- The line of the token at a position. -/
def lineOf? (listing : Listing) (index : Nat) : Option Nat := listing.lines[index]?

/-- What a number in a listing stands for. -/
inductive Quantity where
  | address
  | constant
  | opcode
  | parameter
  deriving DecidableEq

/-- What a number stands for, at the beginning of a message. -/
def Quantity.name : Quantity → String
  | address => "Address"
  | constant => "Constant"
  | opcode => "Opcode"
  | parameter => "Parameter"

/-- Why a line is no token. Words appear as they were written, and mnemonics in
upper case where so stated. -/
inductive Fault where
  /-- The mnemonic, in upper case, takes one argument, and this many were given. -/
  | argumentCount (mnemonic : String) (given : Nat)
  /-- The mnemonic, in upper case, takes no more than one parameter, and this many
  were given. -/
  | parameterCount (mnemonic : String) (given : Nat)
  /-- The word is not a number. -/
  | malformedNumber (word : String)
  /-- The word is a number that does not fit. -/
  | outOfRange (quantity : Quantity) (word : String)
  /-- The word is neither the mnemonic nor the number of a calculation. -/
  | unknownCalculation (word : String)
  /-- The word is neither a mnemonic nor a number. -/
  | unknownMnemonic (word : String)
  deriving DecidableEq

/-- The wording of a fault. -/
def Fault.message : Fault → String
  | argumentCount mnemonic given =>
    "Expected 1 argument for " ++ mnemonic ++ ", got " ++ Numeral.ofNat given
  | parameterCount mnemonic given =>
    "Expected at most 1 parameter for " ++ mnemonic ++ ", got " ++ Numeral.ofNat given
  | malformedNumber word => "Invalid number: " ++ word
  | outOfRange quantity word => quantity.name ++ " out of range: " ++ word
  | unknownCalculation word => "Unknown calculation '" ++ word ++ "'"
  | unknownMnemonic word => "Unknown mnemonic '" ++ word ++ "'"

end Listing

/-- The first fault of a listing. -/
structure ListingError where
  /-- The number of the line, from one. -/
  line : Nat
  fault : Listing.Fault
  deriving DecidableEq

/-- The wording of the first fault of a listing. -/
def ListingError.message (error : ListingError) : String := error.fault.message

/-- Writes tokens as a listing, one a line, without an end of the last line. -/
def Listing.write (tokens : List Token) : String :=
  "\n".intercalate (tokens.map Token.text)

end EventScript
