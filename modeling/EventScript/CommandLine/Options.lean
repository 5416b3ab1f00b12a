import EventScript.Script.Basic

/-!
# Options

The program takes the path of one listing and a few options. Options of one letter
may share a dash, and the option with a value takes it from the same word or from
the next one. Two dashes alone end the options. Nothing may be given twice. The
words are read from left to right, and a question about the program itself is
answered as soon as it is met.
-/

set_option autoImplicit false

namespace EventScript.CommandLine

/-- An option without a value. -/
inductive Switch where
  /-- Print the script as data. -/
  | json
  /-- Run the script. -/
  | run
  /-- Print no disassembly. -/
  | quiet
  deriving DecidableEq

namespace Switch

/-- Every switch. -/
def all : List Switch := [json, run, quiet]

/-- The name of a switch behind two dashes. -/
def name : Switch → String
  | json => "json"
  | run => "run"
  | quiet => "quiet"

/-- The letter of a switch behind one dash. -/
def letter? : Switch → Option Char
  | json => none
  | run => some 'r'
  | quiet => some 'q'

end Switch

/-- A question about the program itself. -/
inductive Question where
  | help
  | version
  deriving DecidableEq

namespace Question

/-- Every question. -/
def all : List Question := [help, version]

/-- The name of a question behind two dashes. -/
def name : Question → String
  | help => "help"
  | version => "version"

/-- The letter of a question behind one dash. -/
def letter : Question → Char
  | help => 'h'
  | version => 'V'

end Question

/-- The name of the policy option behind two dashes. -/
def policyName : String := "policy"

/-- The letter of the policy option behind one dash. -/
def policyLetter : Char := 'p'

/-- Why the words of a command line make no sense. -/
inductive UsageError where
  | unknownOption (word : String)
  | repeatedOption (name : String)
  | missingValue (name : String)
  | superfluousValue (name : String)
  | invalidPolicy (word : String)
  | missingPath
  | emptyPath
  | secondPath (word : String)
  deriving DecidableEq

/-- The wording of a usage error. -/
def UsageError.message : UsageError → String
  | unknownOption word => "unknown option '" ++ word ++ "'"
  | repeatedOption name => "option '--" ++ name ++ "' is given more than once"
  | missingValue name => "option '--" ++ name ++ "' needs a value"
  | superfluousValue name => "option '--" ++ name ++ "' takes no value"
  | invalidPolicy word => "'" ++ word ++ "' is no policy: it is either 'abort' or 'skip'"
  | missingPath => "the path of a listing is missing"
  | emptyPath => "the path of a listing is empty"
  | secondPath word => "unexpected argument '" ++ word ++ "'"

/-- What to do with a listing. -/
structure Options where
  path : String
  policy : ErrorPolicy := .abort
  json : Bool := false
  run : Bool := false
  quiet : Bool := false
  deriving DecidableEq

/-- What a command line asks for. -/
inductive Request where
  | answer (question : Question)
  | decode (options : Options)
  deriving DecidableEq

/-- What has been read of a command line. -/
structure Draft where
  path? : Option String := none
  policy? : Option ErrorPolicy := none
  switches : List Switch := []
  deriving DecidableEq

/-- Reads the name of a policy. -/
def readPolicy (word : String) : Except UsageError ErrorPolicy :=
  match ErrorPolicy.ofName? word with
  | some policy => .ok policy
  | none => .error (.invalidPolicy word)

namespace Draft

/-- Takes a path, of which there is only one. -/
def withPath (draft : Draft) (word : String) : Except UsageError Draft :=
  if draft.path?.isSome then .error (.secondPath word)
  else if word.isEmpty then .error .emptyPath
  else .ok { draft with path? := some word }

/-- Takes the value of the policy option. -/
def withPolicy (draft : Draft) (word : String) : Except UsageError Draft :=
  if draft.policy?.isSome then .error (.repeatedOption policyName)
  else (readPolicy word).map fun policy => { draft with policy? := some policy }

/-- Takes a switch. -/
def withSwitch (draft : Draft) (switch : Switch) : Except UsageError Draft :=
  if draft.switches.contains switch then .error (.repeatedOption switch.name)
  else .ok { draft with switches := switch :: draft.switches }

/-- The options of a command line that has been read to its end. The policy in the
environment counts, and is checked, only if there was none among the words. -/
def finish (draft : Draft) (environmentPolicy : Option String) : Except UsageError Options := do
  let policy ←
    match draft.policy?, environmentPolicy with
    | some policy, _ => .ok policy
    | none, some word => readPolicy word
    | none, none => .ok .abort
  match draft.path? with
  | none => .error .missingPath
  | some path =>
    return { path, policy, json := draft.switches.contains .json,
             run := draft.switches.contains .run, quiet := draft.switches.contains .quiet }

end Draft

/-- What a word leads to. -/
inductive Step where
  /-- It was read to its end. -/
  | continue (draft : Draft)
  /-- The next word is the value of the policy option. -/
  | awaitPolicy (draft : Draft)
  /-- It asks about the program itself. -/
  | answer (question : Question)
  deriving DecidableEq

/-- Reads an option of two dashes; a value follows an equals sign. -/
def readLong (draft : Draft) (name : String) (value? : Option String) :
    Except UsageError Step :=
  if name = policyName then
    match value? with
    | some word => (draft.withPolicy word).map .continue
    | none => .ok (.awaitPolicy draft)
  else
    match Switch.all.find? (·.name == name), Question.all.find? (·.name == name) with
    | some switch, _ =>
      if value?.isSome then .error (.superfluousValue name)
      else (draft.withSwitch switch).map .continue
    | none, some question =>
      if value?.isSome then .error (.superfluousValue name)
      else .ok (.answer question)
    | none, none => .error (.unknownOption ("--" ++ name))

/-- Reads the letters behind one dash. What follows the letter of the policy option
is its value, with or without an equals sign between. -/
def readLetters (draft : Draft) : List Char → Except UsageError Step
  | [] => .ok (.continue draft)
  | letter :: rest =>
    if letter = policyLetter then
      match rest with
      | [] => .ok (.awaitPolicy draft)
      | '=' :: word => (draft.withPolicy (String.ofList word)).map .continue
      | word => (draft.withPolicy (String.ofList word)).map .continue
    else
      match Switch.all.find? (·.letter? == some letter),
          Question.all.find? (·.letter == letter) with
      | some switch, _ =>
        match draft.withSwitch switch with
        | .ok draft => readLetters draft rest
        | .error error => .error error
      | none, some question => .ok (.answer question)
      | none, none => .error (.unknownOption (String.ofList ['-', letter]))

/-- Reads one word in front of which the options have not ended. A dash alone is a
path. -/
def readWord (draft : Draft) (word : String) : Except UsageError Step :=
  match word.toList with
  | '-' :: '-' :: option =>
    let value? :=
      match option.dropWhile (· != '=') with
      | [] => none
      | _ :: value => some (String.ofList value)
    readLong draft (String.ofList (option.takeWhile (· != '='))) value?
  | '-' :: letter :: letters => readLetters draft (letter :: letters)
  | _ => (draft.withPath word).map .continue

/-- Reads words that are paths, whatever they begin with. -/
def readPaths (draft : Draft) : List String → Except UsageError Draft
  | [] => .ok draft
  | word :: rest =>
    match draft.withPath word with
    | .ok draft => readPaths draft rest
    | .error error => .error error

/-- Reads the rest of a command line. -/
def readWords (environmentPolicy : Option String) (draft : Draft) :
    List String → Except UsageError Request
  | [] => (draft.finish environmentPolicy).map .decode
  | word :: rest =>
    if word = "--" then do
      let draft ← readPaths draft rest
      return .decode (← draft.finish environmentPolicy)
    else
      match readWord draft word with
      | .error error => .error error
      | .ok (.continue draft) => readWords environmentPolicy draft rest
      | .ok (.answer question) => .ok (.answer question)
      | .ok (.awaitPolicy draft) =>
        match rest with
        | [] => .error (.missingValue policyName)
        | value :: rest =>
          match draft.withPolicy value with
          | .ok draft => readWords environmentPolicy draft rest
          | .error error => .error error

/-- Reads the words of a command line and the policy that the environment asks
for. -/
def readArguments (arguments : List String) (environmentPolicy : Option String) :
    Except UsageError Request :=
  readWords environmentPolicy {} arguments

end EventScript.CommandLine
