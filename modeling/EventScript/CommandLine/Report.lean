import EventScript.Execution
import EventScript.Json.Forms
import EventScript.Listing.Basic
import EventScript.Text.Line

/-!
# Reports

What the program prints: a failure with the line of the listing that it is about,
the failures that were passed over, and a decoded script as data or as a
disassembly. A script that is run prints through a host whose state is what has
been printed so far.

A terminal colours a text that stands between two escape sequences: one that
selects the colour and one that returns to the colour before. Bold text is
enclosed in the same way.
-/

set_option autoImplicit false

namespace EventScript

/-! ## Coloured text -/

namespace Text

/-- A colour of terminal text. -/
inductive Colour where
  | red
  | yellow
  | cyan
  | brightBlack
  deriving DecidableEq

/-- The number by which a terminal knows a colour. -/
def Colour.code : Colour → Nat
  | red => 31
  | yellow => 33
  | cyan => 36
  | brightBlack => 90

/-- The number that returns to the colour before. -/
def defaultColourCode : Nat := 39

/-- The escape sequence of a number. -/
def escapeSequence (code : Nat) : String := "\x1b[" ++ Numeral.ofNat code ++ "m"

/-- A text in a colour. -/
def coloured (colour : Colour) (text : String) : String :=
  escapeSequence colour.code ++ text ++ escapeSequence defaultColourCode

/-- A text in bold. -/
def bold (text : String) : String := escapeSequence 1 ++ text ++ escapeSequence 0

end Text

namespace CommandLine.Report

open EventScript.Text

/-! ## Failures -/

/-- A failure: what failed, and why. -/
def failure (title message : String) : String :=
  bold (coloured .red title) ++ ": " ++ coloured .red message

/-- The line of a listing with its number, between two empty ones. -/
def quotation (number : Nat) (line : String) : List String :=
  ["     |",
    coloured .brightBlack (Numeral.rightAligned 3 number ++ " | ") ++ line,
    "     |"]

/-- The place of a failure: the number of its line, and the line itself if the
listing has it. -/
def location (source : String) (number : Nat) : List String :=
  ("  --> line " ++ Numeral.ofNat number) ::
    match (lines source)[number - 1]? with
    | some line => quotation number line
    | none => []

/-- A failure with its place in a listing, if that is known. -/
def located (title message source : String) (number? : Option Nat) : List String :=
  failure title message :: (number?.map (location source)).getD []

/-- What may help against a decode error. -/
def advice : DecodeError → String
  | .stackUnderflow _ needed _ =>
    "Help: this opcode pops " ++ Numeral.ofNat needed
      ++ " operand(s); check the pushes before it."
  | .invalidOperand _ _ =>
    "Help: this opcode only accepts PSHN_L constants as operands."
  | .unknownOpcode _ =>
    "Help: the rest of the script cannot be decoded past an unknown opcode."

/-- The fault of a listing. -/
def listingError (source : String) (error : ListingError) : List String :=
  located "Listing error" error.message source (some error.line)

/-- The failure that ended the decoding of a listing. -/
def scriptError (source : String) (listing : Listing) (error : ScriptError) : List String :=
  located "Decode error" error.cause.message source (listing.lineOf? error.index)
    ++ [coloured .yellow (advice error.cause)]

/-- A failure that was passed over, with its line in the listing. -/
def skipped (listing : Listing) (diagnostic : Diagnostic) : String :=
  bold (coloured .yellow "skipped") ++ ": line "
    ++ Numeral.ofNat ((listing.lineOf? diagnostic.index).getD 0) ++ ": "
    ++ diagnostic.error.message

/-! ## Scripts -/

/-- The instruction at a position of a script. -/
def disassembled (index : Nat) (i : Instruction) : String :=
  coloured .brightBlack (Numeral.zeroPadded 4 index) ++ "  " ++ i.text

/-- What is said of operands that nothing took. -/
def leftoverText (count : Nat) : String :=
  "; " ++ Numeral.ofNat count ++ " operand(s) left on the stack"

/-- The notice of operands that nothing took, if there are any. -/
def leftoverNotice (script : Script) : List String :=
  if script.leftover = 0 then [] else [coloured .brightBlack (leftoverText script.leftover)]

/-- A script as its instructions, with the notice of operands that nothing took
behind them. -/
def disassembly (script : Script) : List String :=
  script.instructions.mapIdx disassembled ++ leftoverNotice script

/-- A script as data. -/
def data (script : Script) : List String := [script.toJson.pretty]

/-! ## Runs -/

/-- The line of a directive. -/
def directiveLine (directive : Directive) : String :=
  coloured .cyan "->" ++ " " ++ directive.text

/-- The host that prints a line for each directive. -/
def printing : Host (List String) where
  signal printed directive := (.ok (), printed ++ [directiveLine directive])

/-- The refusal that ended a run. -/
def runError (error : RunError) : String := failure "Run error" error.message

end CommandLine.Report

end EventScript
