import EventScript.Execution
import EventScript.Proofs.Script.Step

/-!
# Runs that no directive ends

A run ends early only where the host refuses a directive. Against a host that accepts them
in turn it executes all instructions, and the host is left in the state to which their
directives lead in order. A host that only notes what it is signalled ends with the notes of
these directives behind those from before.
-/

set_option autoImplicit false

namespace EventScript

/-! ## Battles that are signalled -/

/-- The directive of a battle. -/
def Battle.directive (b : Battle) : Directive := .battle b.encounter b.flags

/-- A battle has a directive. -/
theorem Instruction.directive?_battle (b : Battle) : (battle b).directive? = some b.directive := rfl

/-- The directives of instructions are those of their battles. -/
theorem Instruction.filterMap_directive? (instructions : List Instruction) :
    instructions.filterMap directive? = (instructions.filterMap battle?).map Battle.directive := by
  have hdirective : directive? = fun i => i.battle?.map Battle.directive := by
    funext i
    cases i <;> rfl
  rw [List.map_filterMap, hdirective]

/-! ## One instruction -/

/-- What two runs did, one after the other. -/
def RunSummary.add (first second : RunSummary) : RunSummary where
  executed := first.executed + second.executed
  directives := first.directives + second.directives

/-- Nothing done before adds nothing. -/
theorem RunSummary.zero_add (summary : RunSummary) : add {} summary = summary := by
  simp only [add, Nat.zero_add]

/-- It does not matter how the parts of a run are put together. -/
theorem RunSummary.add_assoc (first second third : RunSummary) :
    (first.add second).add third = first.add (second.add third) := by
  simp only [add, Nat.add_assoc]

variable {State : Type} {host : Host State} {state : State}

namespace Execution

/-- What an instruction does by itself. -/
def step (host : Host State) (state : State) (i : Instruction) :
    Except HostError RunSummary × State :=
  match i.directive? with
  | none => (.ok { executed := 1 }, state)
  | some directive =>
    match host.signal state directive with
    | (.error cause, next) => (.error cause, next)
    | (.ok (), next) => (.ok { executed := 1, directives := 1 }, next)

/-- A run is one step and, if this is not refused, a run from the next position, whose counts are
added to those of the step. -/
theorem runFrom_cons (index : Nat) (state : State) (i : Instruction) (rest : List Instruction) :
    runFrom host index state (i :: rest) =
      match step host state i with
      | (.error cause, next) => (.error { index, instruction := i, cause }, next)
      | (.ok summary, next) =>
        ((runFrom host (index + 1) next rest).1.map summary.add,
          (runFrom host (index + 1) next rest).2) := by
  have hquiet : RunSummary.add { executed := 1 } =
      fun summary => { summary with executed := summary.executed + 1 } := by
    funext summary
    simp only [RunSummary.add, Nat.zero_add, Nat.add_comm 1]
  have hsignalling : RunSummary.add { executed := 1, directives := 1 } =
      fun summary =>
        { executed := summary.executed + 1, directives := summary.directives + 1 } := by
    funext summary
    simp only [RunSummary.add, Nat.add_comm 1]
  cases hdirective : i.directive? with
  | none => simp only [runFrom, step, hdirective, hquiet]
  | some directive =>
    rcases hanswer : host.signal state directive with ⟨cause | ⟨⟩, next⟩
    · simp only [runFrom, step, hdirective, hanswer]
    · simp only [runFrom, step, hdirective, hanswer, hsignalling]

/-- An instruction without an effect leaves the host as it is. -/
theorem step_of_none {i : Instruction} (h : i.directive? = none) :
    step host state i = (.ok { executed := 1 }, state) := by
  rw [step, h]

/-- An instruction with an effect goes the way of the answer of the host. -/
theorem step_of_some {i : Instruction} {directive : Directive}
    (h : i.directive? = some directive) :
    step host state i =
      ((host.signal state directive).1.map fun _ => { executed := 1, directives := 1 },
        (host.signal state directive).2) := by
  rw [step, h]
  dsimp only
  rcases host.signal state directive with ⟨cause | ⟨⟩, next⟩ <;> rfl

end Execution

/-! ## Hosts that refuse nothing -/

/-- The host accepts directives one after another, each in the state to which those before it
led. -/
def Host.Accepts (host : Host State) (state : State) : List Directive → Prop
  | [] => True
  | directive :: rest =>
    (host.signal state directive).1 = .ok () ∧ host.Accepts (host.signal state directive).2 rest

/-- The host accepts every directive in every state. -/
def Host.AcceptsAll (host : Host State) : Prop :=
  ∀ state directive, (host.signal state directive).1 = .ok ()

/-- The state of a host after directives in order, whatever it answers. -/
def Host.after (host : Host State) (state : State) (directives : List Directive) : State :=
  directives.foldl (fun state directive => (host.signal state directive).2) state

/-- A host that refuses nothing accepts any directives in turn. -/
theorem Host.AcceptsAll.accepts (accepts : host.AcceptsAll) (state : State)
    (directives : List Directive) : host.Accepts state directives := by
  induction directives generalizing state with
  | nil => trivial
  | cons directive rest ih => exact ⟨accepts state directive, ih _⟩

namespace Execution

/-- A run against a host that accepts its directives in turn counts all of them and leaves the host
behind the last; the induction is on the instructions, for every position and state. -/
theorem runFrom_of_accepts {instructions : List Instruction} (index : Nat)
    (accepts : host.Accepts state (instructions.filterMap Instruction.directive?)) :
    runFrom host index state instructions =
      (.ok { executed := instructions.length
             directives := (instructions.filterMap Instruction.directive?).length },
        host.after state (instructions.filterMap Instruction.directive?)) := by
  induction instructions generalizing index state with
  | nil => rfl
  | cons i rest ih =>
    rw [runFrom_cons]
    cases hdirective : i.directive? with
    | none =>
      rw [List.filterMap_cons_none hdirective] at accepts ⊢
      rw [step_of_none hdirective]
      dsimp only
      rw [ih (index + 1) accepts]
      simp [Except.map, RunSummary.add, Nat.add_comm]
    | some directive =>
      rw [List.filterMap_cons_some hdirective] at accepts ⊢
      obtain ⟨haccepted, accepts⟩ := accepts
      rw [step_of_some hdirective, haccepted]
      dsimp only [Except.map]
      rw [ih (index + 1) accepts]
      simp [RunSummary.add, Host.after, Nat.add_comm]

/-- A run against a host that refuses nothing reaches the end. -/
theorem run_of_acceptsAll (accepts : host.AcceptsAll) (state : State)
    (instructions : List Instruction) :
    run host state instructions =
      (.ok { executed := instructions.length
             directives := (instructions.filterMap Instruction.directive?).length },
        host.after state (instructions.filterMap Instruction.directive?)) :=
  runFrom_of_accepts 0 (accepts.accepts state _)

end Execution

/-! ## Hosts that keep a list -/

/-- The host accepts every directive and notes it at the end of a list. -/
def Host.Appends {Entry : Type} (host : Host (List Entry)) (note : Directive → Entry) : Prop :=
  ∀ entries directive, host.signal entries directive = (.ok (), entries ++ [note directive])

/-- The host that records notes each directive as it is. -/
theorem Host.recording_appends : Host.recording.Appends id := by
  intro entries directive
  rfl

variable {Entry : Type} {host : Host (List Entry)} {note : Directive → Entry}

/-- A host that only notes directives refuses none. -/
theorem Host.Appends.acceptsAll (appends : host.Appends note) : host.AcceptsAll := by
  intro entries directive
  rw [appends]

/-- Directives leave their notes behind those from before. -/
theorem Host.Appends.after_eq (appends : host.Appends note) (entries : List Entry)
    (directives : List Directive) :
    host.after entries directives = entries ++ directives.map note := by
  induction directives generalizing entries with
  | nil => simp [after]
  | cons directive rest ih =>
    have hrest := ih (entries ++ [note directive])
    simp only [after] at hrest ⊢
    rw [List.foldl_cons, appends, hrest]
    simp

namespace Execution

/-- A run against a host that notes directives leaves a note for each. -/
theorem run_of_appends (appends : host.Appends note) (entries : List Entry)
    (instructions : List Instruction) :
    run host entries instructions =
      (.ok { executed := instructions.length
             directives := (instructions.filterMap Instruction.directive?).length },
        entries ++ (instructions.filterMap Instruction.directive?).map note) := by
  rw [run_of_acceptsAll appends.acceptsAll, appends.after_eq]

end Execution

/-- A host that notes directives is signalled the battles of a script, each once. -/
theorem Script.run_of_appends (appends : host.Appends note) (entries : List Entry)
    (script : Script) :
    Execution.run host entries script.instructions =
      (.ok { executed := script.instructions.length, directives := script.battles.length },
        entries ++ script.battles.map fun b => note b.directive) := by
  rw [Execution.run_of_appends appends, Instruction.filterMap_directive?, ← battles,
    List.length_map, List.map_map]
  rfl

end EventScript
