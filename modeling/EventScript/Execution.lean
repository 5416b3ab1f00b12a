import EventScript.Instruction

/-!
# Execution

To run a script is to signal its effects to the game. An effect is a directive,
and the game is a host: a state together with an answer to each directive. The
first directive that the host refuses ends the run.
-/

set_option autoImplicit false

namespace EventScript

/-- An effect that a script asks of the game. -/
inductive Directive where
  | battle (encounter : UInt16) (flags : BattleFlags)
  deriving DecidableEq

/-- A directive in text. -/
def Directive.text : Directive → String
  | battle encounter flags =>
    "battle " ++ Numeral.ofNat encounter.toNat ++ " [" ++ flags.text ++ "]"

/-- The effect of an instruction, if it has one. -/
def Instruction.directive? : Instruction → Option Directive
  | nop => none
  | battle b => some (.battle b.encounter b.flags)

/-- Why a host refused a directive. -/
structure HostError where
  message : String
  deriving DecidableEq

/-- A game that scripts act on. -/
structure Host (State : Type) where
  /-- Answers a directive, and gives the state afterwards in either case. -/
  signal : State → Directive → Except HostError Unit × State

namespace Host

/-- The host that accepts every directive and keeps them in order. -/
def recording : Host (List Directive) where
  signal recorded directive := (.ok (), recorded ++ [directive])

/-- The host that refuses battles of certain encounters and records the others. -/
def refusing (encounters : List UInt16) (message : String) : Host (List Directive) where
  signal recorded directive :=
    match directive with
    | .battle encounter _ =>
      if encounters.contains encounter then (.error ⟨message⟩, recorded)
      else (.ok (), recorded ++ [directive])

end Host

/-- What a run did that reached the end. -/
structure RunSummary where
  /-- How many instructions there were. -/
  executed : Nat := 0
  /-- How many of them had an effect. -/
  directives : Nat := 0
  deriving DecidableEq

/-- The refusal that ended a run. -/
structure RunError where
  /-- The position of the instruction. -/
  index : Nat
  instruction : Instruction
  cause : HostError
  deriving DecidableEq

/-- The wording of the refusal that ended a run. -/
def RunError.message (error : RunError) : String :=
  "instruction " ++ Numeral.ofNat error.index ++ " (" ++ error.instruction.text ++ "): "
    ++ error.cause.message

namespace Execution

/-- Runs the instructions from position `index` on. Gives the state of the host
after the last directive that was signalled as well. -/
def runFrom {State : Type} (host : Host State) (index : Nat) (state : State) :
    List Instruction → Except RunError RunSummary × State
  | [] => (.ok {}, state)
  | i :: rest =>
    match i.directive? with
    | none =>
      let (result, state) := runFrom host (index + 1) state rest
      (result.map fun summary => { summary with executed := summary.executed + 1 }, state)
    | some directive =>
      match host.signal state directive with
      | (.error cause, state) => (.error { index, instruction := i, cause }, state)
      | (.ok (), state) =>
        let (result, state) := runFrom host (index + 1) state rest
        (result.map fun summary =>
          { executed := summary.executed + 1, directives := summary.directives + 1 }, state)

/-- Runs a script against a host in a given state. -/
def run {State : Type} (host : Host State) (state : State) (instructions : List Instruction) :
    Except RunError RunSummary × State :=
  runFrom host 0 state instructions

/-- Runs scripts one after another on one host, also after one that failed. Gives
for each the result and the state after it. -/
def runEach {State : Type} (host : Host State) (state : State) :
    List (List Instruction) → List (Except RunError RunSummary × State)
  | [] => []
  | script :: rest =>
    let outcome := run host state script
    outcome :: runEach host outcome.2 rest

end Execution

end EventScript
