import EventScript.Proofs.Script.Policy
import EventScript.Proofs.Script.Step

/-!
# Scripts above operands of others

A step looks at the operands that it takes and at none below these. From a stack that
lies on top of another, a token therefore gives what it gives from the upper stack
alone, and leaves the lower one untouched, unless the upper stack is too small for it. A
script none of whose tokens underflows by itself decodes behind any other script as it
does alone: its operands come to lie on those that the other left.
-/

set_option autoImplicit false

namespace EventScript

/-- Whether there were too few operands. -/
def DecodeError.isStackUnderflow : DecodeError → Bool
  | stackUnderflow _ _ _ => true
  | _ => false

/-! ## One stack on another -/

namespace OperandStack

/-- The operands of a stack on top of those of another. -/
def onto (stack base : OperandStack) : OperandStack :=
  ⟨stack.topFirst ++ base.topFirst⟩

variable (stack base : OperandStack)

/-- From the bottom up the base comes first. -/
@[simp]
theorem toList_onto : (stack.onto base).toList = base.toList ++ stack.toList := by
  simp [onto, toList]

/-- Above a base there are as many operands more. -/
@[simp]
theorem size_onto : (stack.onto base).size = base.size + stack.size := by
  rw [← length_toList, toList_onto, List.length_append, length_toList, length_toList]

end OperandStack

variable {policy : ErrorPolicy} {token : Token} {stack next after : OperandStack}
  {outcome : Except DecodeError (Option Instruction)}

/-- A step that finds enough operands touches nothing below them. -/
theorem Token.Step.onto (step : token.Step stack outcome next) (base : OperandStack)
    (enough : ∀ cause, outcome = .error cause → cause.isStackUnderflow = false) :
    token.Step (stack.onto base) outcome (next.onto base) := by
  cases step with
  | constant value => exact .constant value _
  | memory v => exact .memory v _
  | unary takes operand rest => exact .unary takes operand _
  | binary takes left right rest => exact .binary takes left right _
  | calculationShort short => cases enough _ rfl
  | nop parameter => exact .nop parameter _
  | battle parameter encounter flags rest => exact .battle parameter encounter flags _
  | battleShort parameter short => cases enough _ rfl
  | flagsInvalid parameter invalid encounter rest =>
    exact .flagsInvalid parameter invalid encounter _
  | encounterInvalid parameter flags invalid rest =>
    exact .encounterInvalid parameter flags invalid _
  | unknown unlisted parameter => exact .unknown unlisted parameter _

namespace Script

/-! ## Scripts that stand alone -/

/-- When the tokens are decoded from the empty stack, none as far as the decoding goes
has too few operands. -/
def StandsAlone (policy : ErrorPolicy) (tokens : List Token) : Prop :=
  ∀ before token rest script stack cause next,
    tokens = before ++ token :: rest → Run policy 0 .empty before script stack →
    token.Step stack (.error cause) next → cause.isStackUnderflow = false

variable {tokens first second : List Token} {script head tail : Script}

/-- Tokens that find all their operands among themselves do so up to any point. -/
theorem StandsAlone.left (alone : StandsAlone policy (first ++ second)) :
    StandsAlone policy first := by
  intro before token rest script stack cause next htokens
  apply alone before token (rest ++ second)
  rw [htokens, List.append_assoc, List.cons_append]

/-- The strict policy decodes no further than the lenient one. -/
theorem StandsAlone.abort (alone : StandsAlone .skip tokens) : StandsAlone .abort tokens := by
  intro before token rest script stack cause next htokens run
  exact alone before token rest script stack cause next htokens (run_abort_iff.mp run).1

/-- Whether a script that decodes stands alone can be read off its failures. -/
theorem standsAlone_of_decode (hdecode : decode policy tokens = .ok script)
    (hnone : ∀ diagnostic ∈ script.diagnostics, diagnostic.error.isStackUnderflow = false) :
    StandsAlone policy tokens := by
  rintro before token rest _ stack cause next rfl run step
  obtain ⟨after, whole⟩ := decode_eq_ok_iff.mp hdecode
  rw [List.append_cons] at whole
  obtain ⟨upTo, _, tail, runUpTo, -, rfl⟩ := whole.of_append
  obtain ⟨head, reached, last, runHead, runLast, rfl⟩ := runUpTo.of_append
  obtain ⟨outcome, stepLast, -, rfl⟩ := run_singleton_iff.mp runLast
  -- the token fails in the run over all tokens as it does behind those before it
  have hreached : stack = reached := by
    have hsame := (decodeFrom_eq_ok_iff.mpr run).symm.trans (decodeFrom_eq_ok_iff.mpr runHead)
    exact congrArg Prod.snd hsame
  subst hreached
  have houtcome : outcome = .error cause := by
    have hsame := stepLast.runOn_decode.symm.trans step.runOn_decode
    exact congrArg Prod.fst hsame
  subst houtcome
  apply hnone ⟨0 + before.length, cause⟩
  simp [append, single]

/-! ## Runs above other operands -/

/-- The script that is decoded above other operands, which are left as well. -/
def onto (script : Script) (base : OperandStack) : Script :=
  { script with leftover := base.size + script.leftover }

/-- What a token gives above a base is the same, with the base below. -/
theorem single_onto (index : Nat) (next base : OperandStack) :
    single index (next.onto base) outcome = (single index next outcome).onto base := by
  cases outcome <;> simp [single, onto]

/-- A run that finds all its operands among its own tokens is the same run above any base. -/
theorem Run.onto (run : Run policy 0 .empty tokens script after)
    (alone : StandsAlone policy tokens) (base : OperandStack) :
    Run policy 0 base tokens (script.onto base) (after.onto base) := by
  revert alone
  refine run.induction_on_last ?_ ?_
  · intro _
    exact .nil 0 base
  · intro before head stack token outcome next run ih step passes alone
    have enough : ∀ cause, outcome = .error cause → cause.isStackUnderflow = false := by
      rintro cause rfl
      exact alone before token [] head stack cause next rfl run step
    have hrun := (ih alone.left).concat (step.onto base enough) passes
    rw [Nat.zero_add, single_onto] at hrun
    exact hrun

/-- Behind a script that decodes, one that stands alone decodes as by itself, only
further on and above the operands that the first has left. -/
theorem decodeFrom_onto (alone : StandsAlone policy tokens) (count : Nat)
    (base : OperandStack) :
    decodeFrom policy count base tokens =
      match decodeFrom policy 0 .empty tokens with
      | (.error error, after) => (.error (error.shift count), after.onto base)
      | (.ok script, after) => (.ok ((script.onto base).shift count), after.onto base) := by
  have hcount : decodeFrom policy (0 + count) base tokens = _ := decodeFrom_add count tokens
  rw [Nat.zero_add] at hcount
  rw [hcount]
  rcases h : decodeFrom policy 0 .empty tokens with ⟨error | script, after⟩
  · obtain ⟨before, rest, script, stack, htokens, hindex, run, hstep, hstop⟩ :=
      decodeFrom_eq_error_iff.mp h
    have step := Token.step_iff.mpr hstep
    have enough : error.cause.isStackUnderflow = false :=
      alone before error.token rest script stack error.cause after htokens run step
    have stepOnto := step.onto base (by rintro _ ⟨⟩; exact enough)
    have runOnto := run.onto (StandsAlone.left (htokens ▸ alone)) base
    have herror : decodeFrom policy 0 base tokens = (.error error, after.onto base) :=
      decodeFrom_eq_error_iff.mpr ⟨before, rest, _, _, htokens, hindex, runOnto,
        stepOnto.runOn_decode, hstop⟩
    rw [herror]
  · have runOnto := (decodeFrom_eq_ok_iff.mp h).onto alone base
    rw [decodeFrom_eq_ok_iff.mpr runOnto]

end Script

/-! ## Scripts behind others -/

namespace Decoder

/-- Behind a script that decodes, one that stands alone decodes to what it decodes to by
itself: its instructions come behind those of the first and its failures are as many
tokens further on as the first has, its operands wait on top of those of the first, and
where it fails by itself it fails with the same error. -/
theorem decode_append_of_standsAlone (decoder : Decoder) {first second : List Token}
    {head : Script} (hfirst : (decoder.decode first).1 = .ok head)
    (alone : Script.StandsAlone decoder.policy second) :
    (∀ tail, (decoder.decode second).1 = .ok tail →
      (decoder.decode (first ++ second)).1 = .ok
        { instructions := head.instructions ++ tail.instructions
          diagnostics := head.diagnostics ++ tail.diagnostics.map (Diagnostic.shift first.length)
          leftover := head.leftover + tail.leftover } ∧
      (decoder.decode (first ++ second)).2.stack.toList =
        (decoder.decode first).2.stack.toList ++ (decoder.decode second).2.stack.toList) ∧
    ∀ error, (decoder.decode second).1 = .error error →
      (decoder.decode (first ++ second)).1 = .error (error.shift first.length) := by
  obtain ⟨policy, waiting⟩ := decoder
  simp only [decode] at hfirst ⊢
  rcases h : Script.decodeFrom policy 0 .empty first with ⟨_ | _, base⟩ <;> rw [h] at hfirst <;>
    cases hfirst
  have hleftover := (Script.decodeFrom_eq_ok_iff.mp h).leftover_eq
  rw [Script.decodeFrom_append_of_ok h, Nat.zero_add,
    Script.decodeFrom_onto alone first.length base]
  rcases Script.decodeFrom policy 0 .empty second with ⟨error | tail, after⟩
  · refine ⟨nofun, ?_⟩
    rintro _ ⟨⟩
    rfl
  · refine ⟨?_, nofun⟩
    rintro _ ⟨⟩
    refine ⟨?_, OperandStack.toList_onto after base⟩
    rw [hleftover]
    rfl

/-- Two constants, after which a battle lacks one of its operands. -/
def waitingOperands : List Token := [.constant 4, .operation .battle 0, .constant 5]

/-- A battle that loses its flags, another, and an operand that nothing takes. -/
def losingBattle : List Token :=
  [.constant 1, .memory ⟨.byte, 3⟩, .operation .battle 0, .constant 2, .operation .battle 0,
    .constant 9, .calculation .neg]

/-- A battle that loses its flags does so above waiting operands as well, which stay below. -/
theorem decode_append_of_standsAlone_losingBattle :
    Script.StandsAlone .skip losingBattle ∧
    (decode ⟨.skip, .empty⟩ (waitingOperands ++ losingBattle)).1 = .ok
      { instructions := [.battle ⟨1, ⟨2⟩⟩]
        diagnostics := [⟨1, .stackUnderflow .battle 2 1⟩,
          ⟨5, .invalidOperand .battle (.memory ⟨.byte, 3⟩)⟩]
        leftover := 3 } ∧
    (decode ⟨.skip, .empty⟩ (waitingOperands ++ losingBattle)).2.stack.toList =
      [.constant 4, .constant 5, .unary .neg (.constant 9)] ∧
    Script.StandsAlone .abort losingBattle ∧
    (decode ⟨.abort, .empty⟩ ([.constant 4, .constant 5] ++ losingBattle)).1 =
      .error ⟨4, .operation .battle 0, .invalidOperand .battle (.memory ⟨.byte, 3⟩)⟩ := by
  have hskip : Script.decode .skip losingBattle = .ok
      { instructions := [.battle ⟨1, ⟨2⟩⟩]
        diagnostics := [⟨2, .invalidOperand .battle (.memory ⟨.byte, 3⟩)⟩]
        leftover := 1 } := by
    decide
  have alone : Script.StandsAlone .skip losingBattle :=
    Script.standsAlone_of_decode hskip (by decide)
  have lenient := decode_append_of_standsAlone ⟨.skip, .empty⟩
    (show (decode _ waitingOperands).1 = .ok _ from rfl) alone
  have strict := decode_append_of_standsAlone ⟨.abort, .empty⟩
    (show (decode _ [.constant 4, .constant 5]).1 = .ok _ from rfl) alone.abort
  obtain ⟨hscript, hstack⟩ := lenient.1 _ hskip
  exact ⟨alone, hscript, hstack, alone.abort, strict.2 _ rfl⟩

end Decoder

end EventScript
