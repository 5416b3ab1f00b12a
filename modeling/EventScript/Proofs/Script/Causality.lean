import EventScript.Proofs.Script.Step

/-!
# Causality

What becomes of a token depends on the tokens before it and on none behind it. The first
tokens of a script therefore decode to the beginning of what all of them decode to, and the
token at which a script fails is the last that has a part in the failure. What a failure
leaves on the stack is what the tokens before it left there, less the operands that the
failing token had popped.
-/

set_option autoImplicit false

namespace EventScript

/-- `cause.Leaves stack next`: a token that fails for this cause on `stack` leaves `next`.
Operands are lost only if one of them is no constant, and this one is the last to be
lost. -/
inductive DecodeError.Leaves : DecodeError → OperandStack → OperandStack → Prop where
  | stackUnderflow (opcode : Opcode) (needed available : Nat) (stack : OperandStack) :
      Leaves (.stackUnderflow opcode needed available) stack stack
  | unknownOpcode (opcode : Opcode) (stack : OperandStack) :
      Leaves (.unknownOpcode opcode) stack stack
  | top (opcode : Opcode) (operand : Expression) (rest : List Expression) :
      Leaves (.invalidOperand opcode operand) ⟨operand :: rest⟩ ⟨rest⟩
  | topTwo (opcode : Opcode) (first operand : Expression) (rest : List Expression) :
      Leaves (.invalidOperand opcode operand) ⟨first :: operand :: rest⟩ ⟨rest⟩

variable {policy : ErrorPolicy} {tokens : List Token} {stack after : OperandStack}

/-- A token that fails loses the operands that its cause takes and no others. -/
theorem Token.Step.leaves {token : Token} {cause : DecodeError}
    (step : token.Step stack (.error cause) after) : cause.Leaves stack after := by
  cases step with
  | calculationShort short => exact .stackUnderflow ..
  | battleShort parameter short => exact .stackUnderflow ..
  | flagsInvalid parameter invalid encounter rest => exact .top ..
  | encounterInvalid parameter flags invalid rest => exact .topTwo ..
  | unknown unlisted parameter => exact .unknownOpcode ..

namespace Script

/-- The first tokens of a script have the first of its instructions and of its failures. -/
theorem Run.take {script : Script} (run : Run policy 0 .empty tokens script after) (n : Nat) :
    ∃ head next, Run policy 0 .empty (tokens.take n) head next ∧
      head.instructions <+: script.instructions ∧
      head.diagnostics = script.diagnostics.filter (·.index < n) := by
  rw [← List.take_append_drop n tokens] at run
  obtain ⟨head, next, tail, runHead, runTail, rfl⟩ := run.of_append
  refine ⟨head, next, runHead, List.prefix_append _ _, ?_⟩
  have hhead : ∀ diagnostic ∈ head.diagnostics, diagnostic.index < n := by
    intro diagnostic hmem
    have hindex := (runHead.index_of_mem_diagnostics hmem).2
    rw [List.length_take] at hindex
    omega
  -- if there are no more than `n` tokens, then there are no failures behind them either
  have htail : ∀ diagnostic ∈ tail.diagnostics, ¬ diagnostic.index < n := by
    intro diagnostic hmem
    have hindex := runTail.index_of_mem_diagnostics hmem
    rw [List.length_take, List.length_drop] at hindex
    omega
  have hkept : head.diagnostics.filter (·.index < n) = head.diagnostics := by
    simpa [List.filter_eq_self] using hhead
  have hdropped : tail.diagnostics.filter (·.index < n) = [] := by
    simpa [List.filter_eq_nil_iff] using htail
  rw [Script.append, List.filter_append, hkept, hdropped, List.append_nil]

/-- A failing run is a run over the tokens before the failing one and a step of this one,
behind which nothing is looked at. -/
theorem exists_run_take_of_error {error : ScriptError}
    (h : decodeFrom policy 0 .empty tokens = (.error error, after)) :
    ∃ head next, Run policy 0 .empty (tokens.take error.index) head next ∧
      error.token.Step next (.error error.cause) after ∧
      decodeFrom policy 0 .empty (tokens.take (error.index + 1)) = (.error error, after) := by
  obtain ⟨before, rest, head, next, rfl, hindex, run, hstep, hstop⟩ :=
    decodeFrom_eq_error_iff.mp h
  have hlength : error.index = before.length := by omega
  have htake : (before ++ error.token :: rest).take error.index = before := by
    rw [hlength, List.take_left]
  have htake' : (before ++ error.token :: rest).take (error.index + 1) =
      before ++ [error.token] := by
    rw [hlength, List.take_length_add_append]
    rfl
  refine ⟨head, next, ?_, Token.step_iff.mpr hstep, ?_⟩
  · rw [htake]
    exact run
  · rw [htake']
    exact decodeFrom_eq_error_iff.mpr ⟨before, [], head, next, rfl, hindex, run, hstep, hstop⟩

end Script

namespace Decoder

/-- Decoding is causal. A script that fails does so at one of its tokens. Those before it
decode, and whatever may stand behind it, decoding ends there with the same error and the
same operands: those that the tokens before it left, less the first or the first two from
the top if it found one there that is no constant. Of a script that decodes the first tokens
decode too, to its first instructions and those of its failures that are at their
positions. -/
theorem decode_causal (decoder : Decoder) (tokens : List Token) :
    (∀ error, (decoder.decode tokens).1 = .error error →
      (∃ within : error.index < tokens.length, tokens[error.index] = error.token) ∧
      (∃ head, (decoder.decode (tokens.take error.index)).1 = .ok head) ∧
      (∀ others, decoder.decode (tokens.take (error.index + 1) ++ others) =
        (.error error, (decoder.decode tokens).2)) ∧
      error.cause.Leaves (decoder.decode (tokens.take error.index)).2.stack
        (decoder.decode tokens).2.stack) ∧
    ∀ script, (decoder.decode tokens).1 = .ok script → ∀ n, ∃ head,
      (decoder.decode (tokens.take n)).1 = .ok head ∧
      head.instructions <+: script.instructions ∧
      head.diagnostics = script.diagnostics.filter (·.index < n) := by
  constructor
  · intro error h
    have hrun : Script.decodeFrom decoder.policy 0 .empty tokens =
        (.error error, (decoder.decode tokens).2.stack) := Prod.ext h rfl
    obtain ⟨head, next, run, step, hupTo⟩ := Script.exists_run_take_of_error hrun
    have hbefore := Script.decodeFrom_eq_ok_iff.mpr run
    have hstack : (decoder.decode (tokens.take error.index)).2.stack = next :=
      congrArg Prod.snd hbefore
    refine ⟨List.getElem?_eq_some_iff.mp (Script.getElem?_index_of_decode_eq_error h),
      ⟨head, congrArg Prod.fst hbefore⟩, ?_, ?_⟩
    · intro others
      rw [decode, Script.decodeFrom_append_of_error hupTo]
      rfl
    · rw [hstack]
      exact step.leaves
  · intro script h n
    obtain ⟨after, run⟩ := Script.decode_eq_ok_iff.mp h
    obtain ⟨head, next, runHead, hinstructions, hdiagnostics⟩ := run.take n
    exact ⟨head, congrArg Prod.fst (Script.decodeFrom_eq_ok_iff.mpr runHead), hinstructions,
      hdiagnostics⟩

/-- A battle loses both of its operands, the next lacks one, and then an opcode is
unknown. -/
def strandedBattles : List Token :=
  [.memory ⟨.word, 8⟩, .constant 2, .operation .battle 0, .constant 1, .operation .battle 0,
    .constant 4, .operation ⟨0x2ff⟩ 0, .constant 3]

/-- Where the decoding of the battles ends depends on the policy and not on what comes behind, nor
on what waited from before. -/
theorem decode_causal_strandedBattles :
    (decode ⟨.abort, .ofList [.constant 9]⟩ strandedBattles).1 =
      .error ⟨2, .operation .battle 0, .invalidOperand .battle (.memory ⟨.word, 8⟩)⟩ ∧
    DecodeError.Leaves (.invalidOperand .battle (.memory ⟨.word, 8⟩))
      (.ofList [.memory ⟨.word, 8⟩, .constant 2]) .empty ∧
    (decode ⟨.skip, .empty⟩ strandedBattles).1 =
      .error ⟨6, .operation ⟨0x2ff⟩ 0, .unknownOpcode ⟨0x2ff⟩⟩ ∧
    (∀ others, decode ⟨.skip, .empty⟩ (strandedBattles.take 7 ++ others) =
      (.error ⟨6, .operation ⟨0x2ff⟩ 0, .unknownOpcode ⟨0x2ff⟩⟩,
        ⟨.skip, .ofList [.constant 1, .constant 4]⟩)) ∧
    (decode ⟨.skip, .empty⟩ (strandedBattles.take 6)).1 = .ok
      { diagnostics := [⟨2, .invalidOperand .battle (.memory ⟨.word, 8⟩)⟩,
          ⟨4, .stackUnderflow .battle 2 1⟩]
        leftover := 2 } ∧
    ∃ head, (decode ⟨.skip, .empty⟩ (strandedBattles.take 4)).1 = .ok head ∧
      head.diagnostics = [⟨2, .invalidOperand .battle (.memory ⟨.word, 8⟩)⟩] := by
  have hstrict : (decode ⟨.abort, .ofList [.constant 9]⟩ strandedBattles).1 =
      .error ⟨2, .operation .battle 0, .invalidOperand .battle (.memory ⟨.word, 8⟩)⟩ := by
    decide
  have hlenient : (decode ⟨.skip, .empty⟩ strandedBattles).1 =
      .error ⟨6, .operation ⟨0x2ff⟩ 0, .unknownOpcode ⟨0x2ff⟩⟩ := by
    decide
  have hscript : (decode ⟨.skip, .empty⟩ (strandedBattles.take 6)).1 = .ok
      { diagnostics := [⟨2, .invalidOperand .battle (.memory ⟨.word, 8⟩)⟩,
          ⟨4, .stackUnderflow .battle 2 1⟩]
        leftover := 2 } := by
    decide
  obtain ⟨-, -, -, hleaves⟩ := (decode_causal _ _).1 _ hstrict
  obtain ⟨-, -, hothers, -⟩ := (decode_causal _ _).1 _ hlenient
  obtain ⟨head, hhead, -, hdiagnostics⟩ := (decode_causal _ _).2 _ hscript 4
  exact ⟨hstrict, hleaves, hlenient, hothers, hscript, head, hhead, hdiagnostics⟩

end Decoder

end EventScript
