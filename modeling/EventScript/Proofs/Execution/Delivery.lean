import EventScript.Proofs.Execution.Acceptance
import Mathlib.Order.Bounds.Defs

/-!
# What a run delivers

A host may answer a directive by everything that it was signalled before. A run signals it
the directives of the battles in order and stops behind the first that is refused, so the host
ends in the state to which the directives up to that one lead, and the counts or the position
that the run gives tell which they were. A run over a concatenation is therefore a run
over the first part and, if that succeeds, a run over the second on the same host.
-/

set_option autoImplicit false

namespace EventScript

variable {State : Type} {host : Host State} {state : State}

namespace Execution

/-! ## Directives in order -/

/-- The directives of the battles among instructions, in order. -/
def deliveries (instructions : List Instruction) : List Directive :=
  (instructions.filterMap Instruction.battle?).map Battle.directive

/-- The directives of the battles are those of all instructions, since no other has any. -/
theorem deliveries_eq (instructions : List Instruction) :
    deliveries instructions = instructions.filterMap Instruction.directive? :=
  (Instruction.filterMap_directive? instructions).symm

/-- The directives of two lists of instructions follow one another. -/
theorem deliveries_append (first second : List Instruction) :
    deliveries (first ++ second) = deliveries first ++ deliveries second := by
  simp only [deliveries, List.filterMap_append, List.map_append]

/-- An instruction without a directive delivers nothing. -/
theorem deliveries_cons_of_none {i : Instruction} (h : i.directive? = none)
    (rest : List Instruction) : deliveries (i :: rest) = deliveries rest := by
  rw [deliveries_eq, deliveries_eq, List.filterMap_cons_none h]

/-- An instruction with a directive delivers it before the rest. -/
theorem deliveries_cons_of_some {i : Instruction} {directive : Directive}
    (h : i.directive? = some directive) (rest : List Instruction) :
    deliveries (i :: rest) = directive :: deliveries rest := by
  rw [deliveries_eq, deliveries_eq, List.filterMap_cons_some h]

end Execution

open Execution (deliveries deliveries_append deliveries_cons_of_some)

/-- Directives leave the host where their last part leaves it behind the first. -/
theorem Host.after_append (host : Host State) (state : State) (first second : List Directive) :
    host.after state (first ++ second) = host.after (host.after state first) second :=
  List.foldl_append

/-- Directives are accepted in turn exactly if their first part is, and the rest behind it. -/
theorem Host.accepts_append (first second : List Directive) :
    host.Accepts state (first ++ second) ↔
      host.Accepts state first ∧ host.Accepts (host.after state first) second := by
  induction first generalizing state with
  | nil => exact ⟨fun h => ⟨trivial, h⟩, fun h => h.2⟩
  | cons directive rest ih => exact (and_congr_right fun _ => ih).trans and_assoc.symm

/-! ## The first refusal -/

/-- The host accepts the directives of instructions in turn and refuses that of the battle
that follows. -/
structure Host.RefusesAfter (host : Host State) (state : State) (before : List Instruction)
    (b : Battle) (cause : HostError) : Prop where
  accepts : host.Accepts state (deliveries before)
  refuses : (host.signal (host.after state (deliveries before)) b.directive).1 = .error cause

/-- The answer to the directive of the instruction at a position, if there is one, of a host
that was signalled those of the instructions before. -/
def Host.answer? (host : Host State) (state : State) (instructions : List Instruction)
    (position : Nat) : Option (Except HostError Unit) :=
  (instructions[position]?.bind Instruction.directive?).map fun directive =>
    (host.signal (host.after state (deliveries (instructions.take position))) directive).1

/-- The instruction behind others is answered in the state to which their directives lead. -/
theorem Host.answer?_length (before : List Instruction) (i : Instruction)
    (rest : List Instruction) :
    host.answer? state (before ++ i :: rest) before.length =
      i.directive?.map fun directive =>
        (host.signal (host.after state (deliveries before)) directive).1 := by
  rw [answer?, List.getElem?_append_right (Nat.le_refl _), Nat.sub_self, List.take_left]
  rfl

/-- A list of directives that is not accepted has a first one that is refused. -/
theorem Host.exists_refusesAfter {instructions : List Instruction}
    (h : ¬ host.Accepts state (deliveries instructions)) :
    ∃ before b rest cause, instructions = before ++ .battle b :: rest ∧
      host.RefusesAfter state before b cause := by
  induction instructions generalizing state with
  | nil => exact absurd trivial h
  | cons i rest ih =>
    cases i with
    | nop =>
      obtain ⟨before, b, rest, cause, rfl, refusal⟩ := ih h
      exact ⟨.nop :: before, b, rest, cause, rfl, refusal.accepts, refusal.refuses⟩
    | battle b =>
      -- this battle is the one, or the one is found behind it, in the state that it led to
      rcases hanswer : (host.signal state b.directive).1 with cause | ⟨⟩
      · exact ⟨[], b, rest, cause, rfl, trivial, hanswer⟩
      · have hrest : ¬ host.Accepts (host.signal state b.directive).2 (deliveries rest) :=
          fun accepts => h ⟨hanswer, accepts⟩
        obtain ⟨before, b', rest, cause, rfl, refusal⟩ := ih hrest
        exact ⟨.battle b :: before, b', rest, cause, rfl, ⟨hanswer, refusal.accepts⟩,
          refusal.refuses⟩

/-- Where directives are accepted in turn none is refused. -/
theorem Host.Accepts.answer?_ne {before : List Instruction}
    (accepts : host.Accepts state (deliveries before)) (rest : List Instruction) {position : Nat}
    (hlt : position < before.length) (cause : HostError) :
    host.answer? state (before ++ rest) position ≠ some (.error cause) := by
  obtain ⟨first, i, second, rfl, rfl⟩ :
      ∃ first i second, before = first ++ i :: second ∧ first.length = position :=
    ⟨before.take position, before[position], before.drop (position + 1),
      by rw [← List.drop_eq_getElem_cons hlt, List.take_append_drop],
      List.length_take_of_le (Nat.le_of_lt hlt)⟩
  rw [List.append_assoc, List.cons_append, Host.answer?_length]
  rw [deliveries_append, Host.accepts_append] at accepts
  cases hdirective : i.directive? with
  | none => nofun
  | some directive =>
    rw [deliveries_cons_of_some hdirective] at accepts
    rw [Option.map_some, accepts.2.1]
    nofun

/-- A battle that is refused behind others that are accepted is the first that is refused. -/
theorem Host.RefusesAfter.isLeast {before : List Instruction} {b : Battle} {cause : HostError}
    (refusal : host.RefusesAfter state before b cause) (rest : List Instruction) :
    IsLeast {position | ∃ cause,
      host.answer? state (before ++ .battle b :: rest) position = some (.error cause)}
      before.length := by
  refine ⟨⟨cause, ?_⟩, fun position ⟨cause', hposition⟩ => ?_⟩
  · rw [Host.answer?_length]
    exact congrArg some refusal.refuses
  · exact Nat.le_of_not_lt fun hlt => refusal.accepts.answer?_ne _ hlt cause' hposition

/-! ## Runs over concatenations -/

/-- The same refusal, `count` instructions further on. -/
def RunError.shift (count : Nat) (error : RunError) : RunError :=
  { error with index := error.index + count }

namespace Execution

/-- A run of two lists of instructions is a run of the first and, if this reaches its end, a run of
the second from there. -/
theorem runFrom_append (index : Nat) (state : State) (first second : List Instruction) :
    runFrom host index state (first ++ second) =
      match runFrom host index state first with
      | (.error error, after) => (.error error, after)
      | (.ok summary, after) =>
        ((runFrom host (index + first.length) after second).1.map summary.add,
          (runFrom host (index + first.length) after second).2) := by
  induction first generalizing index state with
  | nil =>
    rw [List.nil_append, runFrom, List.length_nil, Nat.add_zero]
    dsimp only
    rcases runFrom host index state second with ⟨error | summary, last⟩
    · rfl
    · dsimp only [Except.map]
      rw [RunSummary.zero_add]
  | cons i rest ih =>
    have hindex : index + (i :: rest).length = index + 1 + rest.length := by
      rw [List.length_cons]
      omega
    rw [List.cons_append, hindex, runFrom_cons, runFrom_cons]
    -- a refused instruction hides all that follows; the others add their own to its counts
    rcases step host state i with ⟨cause | own, next⟩
    · rfl
    · dsimp only
      rw [ih]
      rcases runFrom host (index + 1) next rest with ⟨error | summary, after⟩
      · rfl
      · dsimp only [Except.map]
        rcases runFrom host (index + 1 + rest.length) after second with ⟨error | further, last⟩
        · rfl
        · dsimp only
          rw [RunSummary.add_assoc]

/-- A run that starts further on gives the same, as much further on. -/
theorem runFrom_add (index count : Nat) (state : State) (instructions : List Instruction) :
    runFrom host (index + count) state instructions =
      ((runFrom host index state instructions).1.mapError (RunError.shift count),
        (runFrom host index state instructions).2) := by
  induction instructions generalizing index state with
  | nil => rfl
  | cons i rest ih =>
    rw [runFrom_cons, runFrom_cons, Nat.add_right_comm]
    rcases step host state i with ⟨cause | own, next⟩
    · rfl
    · dsimp only
      rw [ih]
      rcases runFrom host (index + 1) next rest with ⟨error | summary, after⟩ <;> rfl

/-- A run over a concatenation is the run over the first part and, if that succeeds, the run
over the second on the same host. -/
theorem run_append (host : Host State) (state : State) (first second : List Instruction) :
    run host state (first ++ second) =
      match run host state first with
      | (.error error, after) => (.error error, after)
      | (.ok summary, after) =>
        match run host after second with
        | (.error error, last) => (.error (error.shift first.length), last)
        | (.ok further, last) => (.ok (summary.add further), last) := by
  rw [run, run, runFrom_append]
  rcases runFrom host 0 state first with ⟨error | summary, after⟩
  · rfl
  · dsimp only
    rw [runFrom_add, run]
    rcases runFrom host 0 after second with ⟨error | further, last⟩ <;> rfl

/-! ## Runs that end early -/

/-- A run whose directives are accepted in turn reaches the end. -/
theorem run_of_accepts {instructions : List Instruction}
    (accepts : host.Accepts state (deliveries instructions)) :
    run host state instructions =
      (.ok { executed := instructions.length
             directives := (instructions.filterMap Instruction.battle?).length },
        host.after state (deliveries instructions)) := by
  have hcount : (deliveries instructions).length =
      (instructions.filterMap Instruction.battle?).length := List.length_map _
  rw [← hcount, deliveries_eq]
  rw [deliveries_eq] at accepts
  exact runFrom_of_accepts 0 accepts

/-- A run ends at the first battle whose directive is refused, and what follows makes no
difference. -/
theorem run_of_refusesAfter {before : List Instruction} {b : Battle} {cause : HostError}
    (refusal : host.RefusesAfter state before b cause) (rest : List Instruction) :
    run host state (before ++ .battle b :: rest) =
      (.error { index := before.length, instruction := .battle b, cause },
        host.after state (deliveries (before ++ [.battle b]))) := by
  have hbattle : deliveries [.battle b] = [b.directive] := rfl
  -- the part before the battle is a run that succeeds, and only its state matters here
  have hbefore := run_of_accepts refusal.accepts
  rw [run] at hbefore
  rw [run, runFrom_append, hbefore]
  dsimp only
  rw [runFrom_cons, step_of_some (Instruction.directive?_battle b), refusal.refuses, Nat.zero_add,
    deliveries_append, Host.after_append, hbattle]
  rfl

/-- The instructions that a run came to: all of them, or those up to the one whose directive
was refused. -/
def reached (result : Except RunError RunSummary) (instructions : List Instruction) :
    List Instruction :=
  match result with
  | .ok _ => instructions
  | .error error => instructions.take (error.index + 1)

end Execution

/-- The host with a log of every directive that it is signalled. -/
def Host.logging (host : Host State) : Host (State × List Directive) where
  signal logged directive :=
    ((host.signal logged.1 directive).1, (host.signal logged.1 directive).2,
      logged.2 ++ [directive])

/-- A log keeps the directives in order and does not touch the host. -/
theorem Host.after_logging (host : Host State) (state : State) (log directives : List Directive) :
    host.logging.after (state, log) directives =
      (host.after state directives, log ++ directives) := by
  induction directives generalizing state log with
  | nil =>
    rw [List.append_nil]
    rfl
  | cons directive rest ih =>
    have hrest := ih (host.signal state directive).2 (log ++ [directive])
    rw [List.append_assoc] at hrest
    exact hrest

/-- With a log a host accepts the same directives. -/
theorem Host.accepts_logging_iff {log directives : List Directive} :
    host.logging.Accepts (state, log) directives ↔ host.Accepts state directives := by
  induction directives generalizing state log with
  | nil => exact Iff.rfl
  | cons directive rest ih => exact and_congr_right fun _ => ih

/-- With a log a host refuses the same battle. -/
theorem Host.RefusesAfter.logging {before : List Instruction} {b : Battle} {cause : HostError}
    (refusal : host.RefusesAfter state before b cause) (log : List Directive) :
    host.logging.RefusesAfter (state, log) before b cause where
  accepts := accepts_logging_iff.mpr refusal.accepts
  refuses := by
    rw [after_logging]
    exact refusal.refuses

namespace Execution

/-- The instructions up to one behind others are the others and this one. -/
theorem take_length_succ (before : List Instruction) (i : Instruction)
    (rest : List Instruction) :
    (before ++ i :: rest).take (before.length + 1) = before ++ [i] := by
  rw [List.take_length_add_append]
  rfl

/-- A run signals the directives of the instructions that it comes to, and no others. -/
theorem run_logging (host : Host State) (state : State) (log : List Directive)
    (instructions : List Instruction) :
    run host.logging (state, log) instructions =
      ((run host state instructions).1, (run host state instructions).2,
        log ++ deliveries (reached (run host state instructions).1 instructions)) := by
  by_cases accepts : host.Accepts state (deliveries instructions)
  · rw [run_of_accepts accepts, run_of_accepts (Host.accepts_logging_iff.mpr accepts),
      Host.after_logging, reached]
  · obtain ⟨before, b, rest, cause, rfl, refusal⟩ := Host.exists_refusesAfter accepts
    rw [run_of_refusesAfter refusal, run_of_refusesAfter (refusal.logging log),
      Host.after_logging, reached, take_length_succ]

end Execution

/-! ## Hosts that keep what they accept -/

/-- The host answers a directive alike whatever came before, and keeps those it accepts at
the end of a list. -/
def Host.Keeps (host : Host (List Directive)) (answer : Directive → Except HostError Unit) :
    Prop :=
  ∀ kept directive, host.signal kept directive =
    (answer directive, if (answer directive).isOk then kept ++ [directive] else kept)

/-- The host that records answers every directive alike, whatever it keeps. -/
theorem Host.recording_keeps : Host.recording.Keeps fun _ => .ok () := by
  intro kept directive
  rfl

/-- The host that refuses encounters answers by the encounter, whatever it keeps. -/
theorem Host.refusing_keeps (encounters : List UInt16) (message : String) :
    (Host.refusing encounters message).Keeps fun
      | .battle encounter _ =>
        if encounters.contains encounter then .error ⟨message⟩ else .ok () := by
  rintro kept ⟨encounter, flags⟩
  cases h : encounters.contains encounter <;> simp only [refusing, h] <;> rfl

namespace Execution

variable {host : Host (List Directive)} {answer : Directive → Except HostError Unit}

/-- A run against such a host goes the same way whatever was kept before, and its directives
are kept until one is refused. -/
theorem runFrom_of_keeps (keeps : host.Keeps answer) (index : Nat) (kept : List Directive)
    (instructions : List Instruction) :
    runFrom host index kept instructions =
      ((runFrom host index [] instructions).1,
        kept ++ (deliveries instructions).takeWhile fun directive => (answer directive).isOk) := by
  induction instructions generalizing index kept with
  | nil => exact congrArg _ (List.append_nil kept).symm
  | cons i rest ih =>
    rw [runFrom_cons, runFrom_cons]
    cases hdirective : i.directive? with
    | none =>
      rw [step_of_none hdirective, step_of_none hdirective, deliveries_cons_of_none hdirective]
      dsimp only
      rw [ih]
    | some directive =>
      rw [step_of_some hdirective, step_of_some hdirective, deliveries_cons_of_some hdirective,
        List.takeWhile_cons]
      cases hanswer : answer directive with
      | error cause =>
        have hrefused : ∀ kept, host.signal kept directive = (.error cause, kept) := by
          intro kept
          rw [keeps, hanswer]
          rfl
        rw [hrefused, hrefused]
        exact congrArg _ (List.append_nil kept).symm
      | ok =>
        have haccepted : ∀ kept, host.signal kept directive = (.ok (), kept ++ [directive]) := by
          intro kept
          rw [keeps, hanswer]
          rfl
        rw [haccepted, haccepted]
        dsimp only [Except.map]
        rw [ih, ih _ ([] ++ [directive]), List.append_assoc]
        rfl

/-- What a host keeps from before a run has no influence on the run and stays in front. -/
theorem run_of_keeps (keeps : host.Keeps answer) (kept : List Directive)
    (instructions : List Instruction) :
    run host kept instructions =
      ((run host [] instructions).1, kept ++ (run host [] instructions).2) := by
  rw [run, runFrom_of_keeps keeps, run, runFrom_of_keeps keeps 0 [], List.nil_append]

/-- Runs one after another on such a host give what each of them gives by itself, and what
they keep comes one after another. -/
theorem getElem?_runEach (keeps : host.Keeps answer) (kept : List Directive)
    (scripts : List (List Instruction)) (position : Nat) :
    (runEach host kept scripts)[position]? = scripts[position]?.map fun script =>
      ((run host [] script).1,
        kept ++ (scripts.take (position + 1)).flatMap fun script => (run host [] script).2) := by
  induction scripts generalizing kept position with
  | nil => rfl
  | cons script rest ih =>
    rw [runEach, run_of_keeps keeps]
    cases position with
    | zero => simp
    | succ position => simp [ih]

/-- A run delivers to any host the directives of the battles in order, up to the first that is
refused, and what it gives tells how far it came. Runs one after another on one host are
one run as long as they succeed, and a host that keeps what it accepts ends up with what it would
keep of each of them. -/
theorem run_delivers {State : Type} (host : Host State) (state : State)
    (instructions : List Instruction) :
    (host.Accepts state (deliveries instructions) →
        run host state instructions =
          (.ok { executed := instructions.length
                 directives := (instructions.filterMap Instruction.battle?).length },
            host.after state (deliveries instructions))) ∧
      (¬ host.Accepts state (deliveries instructions) →
        ∃ index b cause,
          IsLeast {position | ∃ cause,
            host.answer? state instructions position = some (.error cause)} index ∧
          instructions[index]? = some (.battle b) ∧
          host.answer? state instructions index = some (.error cause) ∧
          run host state instructions =
            (.error { index, instruction := .battle b, cause },
              host.after state (deliveries (instructions.take (index + 1))))) ∧
      (∀ log, run host.logging (state, log) instructions =
        ((run host state instructions).1, (run host state instructions).2,
          log ++ deliveries (reached (run host state instructions).1 instructions))) ∧
      (∀ further, run host state (instructions ++ further) =
        match run host state instructions with
        | (.error error, after) => (.error error, after)
        | (.ok summary, after) =>
          match run host after further with
          | (.error error, last) => (.error (error.shift instructions.length), last)
          | (.ok second, last) => (.ok (summary.add second), last)) ∧
      ∀ recorder : Host (List Directive),
        (recorder = .recording ∨
          ∃ encounters message, recorder = .refusing encounters message) →
        (run recorder [] instructions).2 =
          (deliveries instructions).takeWhile
            (fun directive => (recorder.signal [] directive).1.isOk) ∧
        ∀ kept scripts position,
          (runEach recorder kept scripts)[position]? = scripts[position]?.map fun script =>
            ((run recorder [] script).1,
              kept ++ (scripts.take (position + 1)).flatMap
                fun script => (run recorder [] script).2) := by
  refine ⟨run_of_accepts, fun hrefused => ?_, fun log => run_logging host state log instructions,
    run_append host state instructions, fun recorder hrecorder => ?_⟩
  · obtain ⟨before, b, rest, cause, rfl, refusal⟩ := Host.exists_refusesAfter hrefused
    refine ⟨before.length, b, cause, refusal.isLeast rest, ?_, ?_, ?_⟩
    · rw [List.getElem?_append_right (Nat.le_refl _), Nat.sub_self]
      rfl
    · rw [Host.answer?_length]
      exact congrArg some refusal.refuses
    · rw [run_of_refusesAfter refusal, take_length_succ]
  · obtain ⟨answer, keeps⟩ : ∃ answer, recorder.Keeps answer := by
      rcases hrecorder with rfl | ⟨encounters, message, rfl⟩
      · exact ⟨_, Host.recording_keeps⟩
      · exact ⟨_, Host.refusing_keeps encounters message⟩
    have hanswer : (fun directive => (recorder.signal [] directive).1.isOk) =
        fun directive => (answer directive).isOk := by
      funext directive
      rw [keeps]
    refine ⟨?_, fun kept scripts position => getElem?_runEach keeps kept scripts position⟩
    rw [run, runFrom_of_keeps keeps, List.nil_append, hanswer]

/-- A run of three battles. -/
def threeBattles : List Instruction :=
  [.nop, .battle ⟨1, ⟨0⟩⟩, .battle ⟨2, ⟨4⟩⟩, .battle ⟨3, ⟨0⟩⟩]

/-- A host that refuses the second of them. -/
def partialHost : Host (List Directive) := .refusing [2] "encounter 2 not loaded"

/-- A host that refuses the second of the battles is left behind the first, in a run and in one
after it; what stands before the second runs to the end. -/
theorem run_delivers_threeBattles :
    partialHost.Accepts [] (deliveries (threeBattles.take 2)) ∧
      run partialHost [] (threeBattles.take 2) =
        (.ok { executed := 2, directives := 1 }, [.battle 1 ⟨0⟩]) ∧
      ¬ partialHost.Accepts [] (deliveries threeBattles) ∧
      (∃ index b cause,
        IsLeast {position | ∃ cause,
          partialHost.answer? [] threeBattles position = some (.error cause)} index ∧
        threeBattles[index]? = some (.battle b) ∧
        partialHost.answer? [] threeBattles index = some (.error cause) ∧
        run partialHost [] threeBattles =
          (.error { index, instruction := .battle b, cause },
            partialHost.after [] (deliveries (threeBattles.take (index + 1))))) ∧
      (runEach partialHost [] [threeBattles, threeBattles])[1]? =
        some (.error ⟨2, .battle ⟨2, ⟨4⟩⟩, ⟨"encounter 2 not loaded"⟩⟩,
          [.battle 1 ⟨0⟩, .battle 1 ⟨0⟩]) := by
  have haccepts : partialHost.Accepts [] (deliveries (threeBattles.take 2)) := ⟨rfl, trivial⟩
  have hrefuses : ¬ partialHost.Accepts [] (deliveries threeBattles) :=
    fun accepts => absurd accepts.2.1 (by decide)
  have hrecorder : partialHost = .recording ∨
      ∃ encounters message, partialHost = .refusing encounters message := .inr ⟨_, _, rfl⟩
  refine ⟨haccepts, (run_delivers partialHost [] (threeBattles.take 2)).1 haccepts, hrefuses,
    (run_delivers partialHost [] threeBattles).2.1 hrefuses, ?_⟩
  rw [((run_delivers partialHost [] threeBattles).2.2.2.2 partialHost hrecorder).2]
  decide

end Execution

end EventScript
