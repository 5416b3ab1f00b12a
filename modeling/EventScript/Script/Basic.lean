import EventScript.Token

/-!
# Decoded scripts

Decoding a script gives its instructions, the failures that were passed over and
the number of operands that nothing took. Whether a failure is passed over is a
matter of policy, except for an unknown opcode, which always ends the decoding.
-/

set_option autoImplicit false

namespace EventScript

/-- What to do about a token that fails to decode. -/
inductive ErrorPolicy where
  /-- Give up the script. -/
  | abort
  /-- Note the failure and go on, without the operands that it used up. -/
  | skip
  deriving DecidableEq

namespace ErrorPolicy

instance : Inhabited ErrorPolicy := ⟨abort⟩

/-- Every policy. -/
def all : List ErrorPolicy := [abort, skip]

/-- The name of a policy. -/
def name : ErrorPolicy → String
  | abort => "abort"
  | skip => "skip"

/-- The policy of a name, which has to be written exactly. -/
def ofName? (word : String) : Option ErrorPolicy :=
  all.find? fun policy => policy.name == word

/-- Whether an error ends the decoding of a script. -/
def stopsAt : ErrorPolicy → DecodeError → Bool
  | abort, _ => true
  | skip, error => error.endsScript

end ErrorPolicy

/-- A failure that was passed over. -/
structure Diagnostic where
  /-- The position of the token. -/
  index : Nat
  error : DecodeError
  deriving DecidableEq

/-- The failure that ended the decoding of a script. -/
structure ScriptError where
  /-- The position of the token. -/
  index : Nat
  token : Token
  cause : DecodeError
  deriving DecidableEq

/-- The wording of the failure that ended a script. -/
def ScriptError.message (error : ScriptError) : String :=
  "token " ++ Numeral.ofNat error.index ++ " (" ++ error.token.text ++ "): "
    ++ error.cause.message

/-- A decoded script. -/
structure Script where
  instructions : List Instruction := []
  /-- The failures that were passed over, in the order of their tokens. -/
  diagnostics : List Diagnostic := []
  /-- How many operands are left after the last token. -/
  leftover : Nat := 0
  deriving DecidableEq

namespace Script

/-- Puts an instruction before those of a script. -/
def consInstruction (i : Instruction) (script : Script) : Script :=
  { script with instructions := i :: script.instructions }

/-- Puts a failure before those of a script. -/
def consDiagnostic (diagnostic : Diagnostic) (script : Script) : Script :=
  { script with diagnostics := diagnostic :: script.diagnostics }

end Script

end EventScript
