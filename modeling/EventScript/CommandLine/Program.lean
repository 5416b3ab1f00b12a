import EventScript.CommandLine.Directory
import EventScript.CommandLine.Options
import EventScript.CommandLine.Report
import EventScript.Listing.Parse
import EventScript.Script.Decode

/-!
# The program

The program reads a listing, decodes it, prints the script and may run it. Whatever
fails ends it with exit code one. Up to the run nothing has been printed but the
failure; a directive that is refused ends it behind what was printed before.
-/

set_option autoImplicit false

namespace EventScript.CommandLine

/-- What a run of the program leaves behind. -/
structure Outcome where
  exitCode : Nat := 0
  stdout : String := ""
  stderr : String := ""
  deriving DecidableEq

namespace Outcome

/-- A run that failed. -/
def failed (report : List String) : Outcome where
  exitCode := 1
  stderr := Text.unlines report

/-- A run that succeeded. -/
def succeeded (printed warnings : List String) : Outcome where
  stdout := Text.unlines printed
  stderr := Text.unlines warnings

/-- A run that failed behind what it had printed. -/
def interrupted (printed report : List String) : Outcome where
  exitCode := 1
  stdout := Text.unlines printed
  stderr := Text.unlines report

end Outcome

/-- The name and version of the program. -/
def versionText : List String := ["fieldscript 0.0.1-dev"]

/-- The name of the environment variable that may hold the policy. -/
def policyVariable : String := "FIELDSCRIPT_POLICY"

/-- How the program is used, with the policy that the environment asks for. -/
def helpText (environmentPolicy : Option String) : List String :=
  ["Decode and run field-script listings",
    "",
    "Usage: fieldscript [OPTIONS] <PATH>",
    "",
    "Arguments:",
    "  <PATH>  Listing file, one token per line",
    "",
    "Options:",
    "  -p, --policy <POLICY>  What to do when an instruction fails to decode [env: "
      ++ policyVariable ++ "=" ++ environmentPolicy.getD ""
      ++ "] [default: abort] [possible values: abort, skip]",
    "      --json             Print the decoded script as JSON",
    "  -r, --run              Run the decoded instructions and print each directive",
    "  -q, --quiet            Do not print the disassembly",
    "  -h, --help             Print help",
    "  -V, --version          Print version"]

/-- The answer to a question about the program itself. -/
def answer (environmentPolicy : Option String) : Question → Outcome
  | .help => .succeeded (helpText environmentPolicy) []
  | .version => .succeeded versionText []

/-- The reason why the file at a path could not be read. -/
def ReadFailure.reason : ReadFailure → String
  | .system reason code => reason ++ " (os error " ++ Numeral.ofNat code ++ ")"
  | .invalidText => "stream did not contain valid UTF-8"

/-- What is printed of a script before it is run. Data takes the place of the
disassembly even if that was not wanted. -/
def body (options : Options) (script : Script) : List String :=
  if options.json then Report.data script
  else if options.quiet then []
  else Report.disassembly script

/-- Prints a script and runs it if that is wanted, on the host that prints. A
directive that the host refuses ends the program. -/
def present (options : Options) (script : Script) (warnings : List String) : Outcome :=
  let printed := body options script
  if options.run then
    match Execution.run Report.printing printed script.instructions with
    | (.ok _, printed) => .succeeded printed warnings
    | (.error error, printed) => .interrupted printed (warnings ++ [Report.runError error])
  else .succeeded printed warnings

/-- Decodes the text of a listing and presents the script. -/
def decodeSource (options : Options) (source : String) : Outcome :=
  match Listing.parse source with
  | .error error => .failed (Report.listingError source error)
  | .ok listing =>
    match Script.decode options.policy listing.tokens with
    | .error error => .failed (Report.scriptError source listing error)
    | .ok script => present options script (script.diagnostics.map (Report.skipped listing))

/-- Decodes what was read at the path of a listing. -/
def decodeContents (options : Options) (contents : Except ReadFailure ByteArray) : Outcome :=
  match contents.bind decodeText with
  | .error cause =>
    .failed [Report.failure "error"
      ("Failed to read " ++ options.path ++ ": " ++ cause.reason)]
  | .ok source => decodeSource options source

/-- Runs the program in a directory. -/
def run (directory : Directory) (arguments : List String) (environmentPolicy : Option String) :
    Except UsageError Outcome :=
  (readArguments arguments environmentPolicy).map fun
    | .answer question => answer environmentPolicy question
    | .decode options => decodeContents options (directory.read options.path)

end EventScript.CommandLine
