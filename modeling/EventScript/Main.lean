import EventScript.CommandLine.Program

/-!
# The executable

The program on the files and the environment of the system.
-/

set_option autoImplicit false

namespace EventScript.CommandLine

/-- The number of a failure of the system, which may be given with a minus sign. -/
def systemCode (code : UInt32) : Nat := code.toInt32.toInt.natAbs

/-- The failure to read a file that an error of the system stands for. -/
def ReadFailure.ofSystem (error : IO.Error) : ReadFailure :=
  match error with
  | .noFileOrDirectory .. => .noSuchFile
  | .permissionDenied .. => .system "Permission denied" 13
  | .inappropriateType _ code _ =>
    if systemCode code = 20 then .notDirectory else .isDirectory
  | .invalidArgument _ code details | .otherError code details =>
    .system details (systemCode code)
  | other => .system (toString other) 5

/-- The bytes of the file at a path. -/
def readSystemFile (path : String) : IO (Except ReadFailure ByteArray) := do
  try
    return .ok (← IO.FS.readBinFile path)
  catch error =>
    return .error (.ofSystem error)

/-- Prints what a run leaves behind and gives its exit code. -/
def Outcome.emit (outcome : Outcome) : IO UInt32 := do
  IO.print outcome.stdout
  IO.eprint outcome.stderr
  return UInt32.ofNat outcome.exitCode

end EventScript.CommandLine

open EventScript.CommandLine in
/-- Runs the program on the words of its command line. -/
def main (arguments : List String) : IO UInt32 := do
  let environmentPolicy ← IO.getEnv policyVariable
  match readArguments arguments environmentPolicy with
  | .error error =>
    IO.eprintln ("error: " ++ error.message)
    return 2
  | .ok (.answer question) => (answer environmentPolicy question).emit
  | .ok (.decode options) =>
    (decodeContents options (← readSystemFile options.path)).emit
