import EventScript.Proofs.Script.Frame
import EventScript.Proofs.Script.Ledger
import EventScript.Proofs.Script.UnlistedOperation

/-!
# Tokens with too few operands

A token for which there are too few operands touches none of them, so the tokens behind it
find what they would have found without it. A script decodes without all such tokens to what
it decodes to with them, except that these failures are gone and the others have moved up.
-/

set_option autoImplicit false

namespace EventScript

variable {token : Token} {tokens before : List Token} {stack next after : OperandStack}
  {outcome : Except DecodeError (Option Instruction)} {cause : DecodeError}
  {script head last : Script}

/-- A token with too few operands leaves the stack as it is. -/
theorem Token.Step.eq_of_isStackUnderflow (step : token.Step stack (.error cause) next)
    (h : cause.isStackUnderflow = true) : next = stack := by
  cases step with
  | calculationShort short => rfl
  | battleShort parameter short => rfl
  | flagsInvalid parameter invalid encounter rest => cases h
  | encounterInvalid parameter flags invalid rest => cases h
  | unknown unlisted parameter => rfl

/-- An error of operands is that there are too few or that one is no constant. -/
theorem DecodeError.OfOperands.isInvalidOperand_eq (h : cause.OfOperands) :
    cause.isInvalidOperand = !cause.isStackUnderflow := by
  cases h <;> rfl

/-- No error is of both sorts. -/
theorem DecodeError.isInvalidOperand_eq_false (h : cause.isStackUnderflow = true) :
    cause.isInvalidOperand = false := by
  cases cause with
  | stackUnderflow opcode needed available => rfl
  | invalidOperand opcode operand => cases h
  | unknownOpcode opcode => cases h

namespace Script

/-- Whether the token at a position had too few operands. -/
def underflowsAt (script : Script) (index : Nat) : Bool :=
  script.diagnostics.any fun diagnostic =>
    diagnostic.index == index && diagnostic.error.isStackUnderflow

/-- How many tokens before a position had too few operands. -/
def underflowsBefore (script : Script) (index : Nat) : Nat :=
  (List.range index).countP script.underflowsAt

/-- The tokens of a script without those that had too few operands. -/
def supplied (script : Script) (tokens : List Token) : List Token :=
  itemsAt (fun index => !script.underflowsAt index) tokens

/-- A script without the failures of tokens that had too few operands, and the others where
their tokens are when those are gone. -/
def withoutUnderflows (script : Script) : Script :=
  { script with
    diagnostics := (script.diagnostics.filter (·.error.isInvalidOperand)).map fun diagnostic =>
      { diagnostic with index := diagnostic.index - script.underflowsBefore diagnostic.index } }

/-! ## One more token -/

/-- Positions with too few operands are those of both parts. -/
theorem underflowsAt_append (index : Nat) : (head.append last).underflowsAt index =
    (head.underflowsAt index || last.underflowsAt index) := by
  simp [underflowsAt, append]

/-- A part without such failures adds no such position. -/
theorem underflowsAt_append_of_none
    (h : ∀ diagnostic ∈ last.diagnostics, diagnostic.error.isStackUnderflow = false) :
    (head.append last).underflowsAt = head.underflowsAt := by
  funext index
  have hlast : last.underflowsAt index = false := by
    simp only [underflowsAt, List.any_eq_false, Bool.and_eq_true, not_and, Bool.not_eq_true]
    intro diagnostic hmem _
    exact h diagnostic hmem
  rw [underflowsAt_append, hlast, Bool.or_false]

/-- No failure of a run is at the position behind its tokens. -/
theorem Run.underflowsAt_length (run : Run .skip 0 .empty before head stack) :
    head.underflowsAt before.length = false := by
  simp only [underflowsAt, List.any_eq_false, Bool.and_eq_true, beq_iff_eq, not_and]
  intro diagnostic hmem heq
  have hindex := (run.index_of_mem_diagnostics hmem).2
  omega

/-- The tokens that had operands enough are fewer than all by those that had not. -/
theorem length_supplied (script : Script) (tokens : List Token) :
    (script.supplied tokens).length = tokens.length - script.underflowsBefore tokens.length := by
  have h := length_itemsAt_not script.underflowsAt tokens
  rw [supplied, underflowsBefore]
  omega

/-- A token that does not underflow stays, and what it gives moves up with it. -/
theorem Run.concat_supplied (run : Run .skip 0 .empty before head stack)
    (hnone : ∀ cause, outcome = .error cause → cause.isInvalidOperand = true)
    (token : Token) (next : OperandStack) :
    (head.append (single before.length next outcome)).supplied (before ++ [token]) =
        head.supplied before ++ [token] ∧
      (head.append (single before.length next outcome)).withoutUnderflows =
        head.withoutUnderflows.append (single (head.supplied before).length next outcome) := by
  have hsame : (head.append (single before.length next outcome)).underflowsAt =
      head.underflowsAt := by
    apply underflowsAt_append_of_none
    intro diagnostic hmem
    cases outcome with
    | ok i => cases hmem
    | error cause =>
      obtain rfl := List.mem_singleton.mp hmem
      by_contra h
      have hinvalid := DecodeError.isInvalidOperand_eq_false (Bool.eq_true_of_not_eq_false h)
      rw [hnone cause rfl] at hinvalid
      cases hinvalid
  constructor
  · rw [supplied, itemsAt_concat, hsame, run.underflowsAt_length]
    rfl
  · simp only [Script.withoutUnderflows, underflowsBefore, hsame]
    cases outcome with
    | ok i => simp [Script.append, single]
    | error cause =>
      simp [Script.append, single, hnone cause rfl, length_supplied, underflowsBefore]

/-- A token that underflows leaves no trace. -/
theorem Run.concat_underflow (run : Run .skip 0 .empty before head stack)
    (h : cause.isStackUnderflow = true) (token : Token) :
    (head.append (single before.length stack (.error cause))).supplied (before ++ [token]) =
        head.supplied before ∧
      (head.append (single before.length stack (.error cause))).withoutUnderflows =
        head.withoutUnderflows := by
  have hbelow : ∀ index < before.length,
      (head.append (single before.length stack (.error cause))).underflowsAt index =
        head.underflowsAt index := by
    intro index hlt
    have hne : before.length ≠ index := by omega
    rw [underflowsAt_append]
    simp [underflowsAt, single, hne]
  have hinvalid := DecodeError.isInvalidOperand_eq_false h
  have hlast : (head.append (single before.length stack (.error cause))).underflowsAt
      before.length = true := by
    rw [underflowsAt_append]
    simp [underflowsAt, single, h]
  constructor
  · rw [supplied, itemsAt_concat, hlast, itemsAt_congr fun index hlt => by rw [hbelow index hlt]]
    exact List.append_nil _
  · have hbefore : ∀ diagnostic ∈ head.diagnostics,
        (head.append (single before.length stack (.error cause))).underflowsBefore
          diagnostic.index = head.underflowsBefore diagnostic.index := by
      intro diagnostic hmem
      have hindex := (run.index_of_mem_diagnostics hmem).2
      apply List.countP_congr
      intro index hrange
      rw [List.mem_range] at hrange
      rw [hbelow index (by omega)]
    have hdropped : (head.append (single before.length stack (.error cause))).diagnostics.filter
        (·.error.isInvalidOperand) = head.diagnostics.filter (·.error.isInvalidOperand) := by
      simp [Script.append, single, hinvalid]
    have hinstructions : (head.append (single before.length stack (.error cause))).instructions =
        head.instructions := by
      simp [Script.append, single]
    have hleftover : (head.append (single before.length stack (.error cause))).leftover =
        head.leftover := run.leftover_eq.symm
    simp only [Script.withoutUnderflows, hdropped, hinstructions, hleftover, Script.mk.injEq,
      true_and, and_true]
    apply List.map_congr_left
    intro diagnostic hmem
    rw [hbefore diagnostic (List.mem_filter.mp hmem).1]

/-! ## Whole scripts -/

/-- Without its tokens with too few operands a run is the run without these failures; the induction
is on the tokens from the first to the last, on the same stack. -/
theorem Run.withoutUnderflows (run : Run .skip 0 .empty tokens script after) :
    Run .skip 0 .empty (script.supplied tokens) script.withoutUnderflows after := by
  refine run.induction_on_last (.nil 0 _) ?_
  intro before head stack token outcome next run ih step passes
  by_cases hunderflow : ∃ cause, outcome = .error cause ∧ cause.isStackUnderflow = true
  · obtain ⟨cause, rfl, hcause⟩ := hunderflow
    obtain rfl := step.eq_of_isStackUnderflow hcause
    obtain ⟨hsupplied, hscript⟩ := run.concat_underflow hcause token
    rw [hsupplied, hscript]
    exact ih
  · have hnone : ∀ cause, outcome = .error cause → cause.isInvalidOperand = true := by
      intro cause houtcome
      have hcause := (ErrorPolicy.stopsAt_skip_eq_false_iff cause).mp (passes cause houtcome)
      rw [hcause.isInvalidOperand_eq]
      by_contra h
      exact hunderflow ⟨cause, houtcome, by simpa using h⟩
    obtain ⟨hsupplied, hscript⟩ := run.concat_supplied hnone token next
    have hrun := ih.concat step passes
    rw [Nat.zero_add] at hrun
    rw [hsupplied, hscript]
    exact hrun

/-- Tokens with too few operands are as if they were not there. Without them a script
decodes to the same instructions and leaves as many operands, and of its failures those are
left for which an operand was no constant, each moved up by as many tokens as are gone before
it. If there is none of these, the strict policy decodes the shorter script as well. -/
theorem decode_withoutUnderflows (h : decode .skip tokens = .ok script) :
    decode .skip (script.supplied tokens) = .ok
      { instructions := script.instructions
        diagnostics := (script.diagnostics.filter (·.error.isInvalidOperand)).map fun diagnostic =>
          { diagnostic with
            index := diagnostic.index - script.underflowsBefore diagnostic.index }
        leftover := script.leftover } ∧
    (∀ diagnostic ∈ script.diagnostics,
      diagnostic.error.isInvalidOperand = !diagnostic.error.isStackUnderflow) ∧
    ((∀ diagnostic ∈ script.diagnostics, diagnostic.error.isInvalidOperand = false) →
      decode .abort (script.supplied tokens) = .ok
        { instructions := script.instructions, leftover := script.leftover }) := by
  obtain ⟨after, run⟩ := decode_eq_ok_iff.mp h
  have hshorter : decode .skip (script.supplied tokens) = .ok script.withoutUnderflows :=
    decode_eq_ok_iff.mpr ⟨after, run.withoutUnderflows⟩
  refine ⟨hshorter, ?_, ?_⟩
  · intro diagnostic hmem
    exact (run.ofOperands_of_mem_diagnostics diagnostic hmem).isInvalidOperand_eq
  · intro hnone
    have hempty : script.withoutUnderflows.diagnostics = [] := by
      simpa [withoutUnderflows, List.filter_eq_nil_iff] using hnone
    have hstrict := decode_abort_eq_ok_iff.mpr ⟨hshorter, hempty⟩
    have hscript : script.withoutUnderflows =
        { instructions := script.instructions, leftover := script.leftover } := by
      rw [← hempty]
      rfl
    rw [hstrict, hscript]

/-- A negation, a sum and a battle lack an operand, and in between a battle loses its flags. -/
def starvedBattles : List Token :=
  [.calculation .neg, .constant 1, .calculation .add, .memory ⟨.byte, 4⟩, .operation .battle 0,
    .operation .battle 0, .constant 3, .operation .battle 0, .constant 9]

/-- A battle lacks an operand, and another one none. -/
def starvedBattle : List Token :=
  [.constant 4, .operation .battle 0, .constant 2, .operation .battle 0]

/-- Without the tokens that lack operands the battle that loses its flags has moved up, and all else
stays. -/
theorem decode_withoutUnderflows_starvedBattles :
    decode .skip starvedBattles = .ok
      { instructions := [.battle ⟨1, ⟨3⟩⟩]
        diagnostics := [⟨0, .stackUnderflow .calculate 1 0⟩, ⟨2, .stackUnderflow .calculate 2 1⟩,
          ⟨4, .invalidOperand .battle (.memory ⟨.byte, 4⟩)⟩, ⟨5, .stackUnderflow .battle 2 1⟩]
        leftover := 1 } ∧
    decode .skip [.constant 1, .memory ⟨.byte, 4⟩, .operation .battle 0, .constant 3,
        .operation .battle 0, .constant 9] = .ok
      { instructions := [.battle ⟨1, ⟨3⟩⟩]
        diagnostics := [⟨2, .invalidOperand .battle (.memory ⟨.byte, 4⟩)⟩]
        leftover := 1 } ∧
    decode .skip starvedBattle = .ok
      { instructions := [.battle ⟨4, ⟨2⟩⟩], diagnostics := [⟨1, .stackUnderflow .battle 2 1⟩] } ∧
    decode .abort [.constant 4, .constant 2, .operation .battle 0] = .ok
      { instructions := [.battle ⟨4, ⟨2⟩⟩] } := by
  have hmixed : decode .skip starvedBattles = .ok
      { instructions := [.battle ⟨1, ⟨3⟩⟩]
        diagnostics := [⟨0, .stackUnderflow .calculate 1 0⟩, ⟨2, .stackUnderflow .calculate 2 1⟩,
          ⟨4, .invalidOperand .battle (.memory ⟨.byte, 4⟩)⟩, ⟨5, .stackUnderflow .battle 2 1⟩]
        leftover := 1 } := by
    decide
  have hshort : decode .skip starvedBattle = .ok
      { instructions := [.battle ⟨4, ⟨2⟩⟩], diagnostics := [⟨1, .stackUnderflow .battle 2 1⟩] } := by
    decide
  refine ⟨hmixed, (decode_withoutUnderflows hmixed).1, hshort, ?_⟩
  exact (decode_withoutUnderflows hshort).2.2 (by decide)

end Script

end EventScript
