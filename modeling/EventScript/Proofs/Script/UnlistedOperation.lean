import EventScript.Proofs.Script.Policy
import EventScript.Proofs.Script.Step
import Mathlib.Order.Bounds.Basic

/-!
# Operations without an entry

An operation whose opcode the table does not list fails on every stack, and is the only
token whose failure the lenient policy does not pass over. Whether a lenient run reaches
the last token, and if not where it ends, can therefore be read off the opcodes of the
tokens: what waits on the stack and what failed before has no part in it.
-/

set_option autoImplicit false

namespace EventScript

/-- Whether a token is an operation whose opcode is not in the table. -/
def Token.isUnlisted : Token → Bool
  | operation opcode _ => !OpcodeTable.contains opcode
  | _ => false

namespace Token

variable {token : Token} {stack next : OperandStack}
  {outcome : Except DecodeError (Option Instruction)}

/-- An unlisted operation fails with its opcode, whatever is on the stack. -/
theorem Step.of_isUnlisted (step : token.Step stack outcome next)
    (h : token.isUnlisted = true) :
    ∃ opcode parameter,
      token = .operation opcode parameter ∧ outcome = .error (.unknownOpcode opcode) := by
  cases step with
  | unknown unlisted parameter => exact ⟨_, parameter, rfl, rfl⟩
  | constant value => cases h
  | memory v => cases h
  | unary takes operand rest => cases h
  | binary takes left right rest => cases h
  | calculationShort short => cases h
  | nop parameter => cases h
  | battle parameter encounter flags rest => cases h
  | battleShort parameter short => cases h
  | flagsInvalid parameter invalid encounter rest => cases h
  | encounterInvalid parameter flags invalid rest => cases h

/-- The lenient policy passes over what a token gives unless the token is unlisted. -/
theorem Step.passes_skip_iff (step : token.Step stack outcome next) :
    ErrorPolicy.skip.Passes outcome ↔ token.isUnlisted = false := by
  constructor
  · intro passes
    by_contra h
    obtain ⟨opcode, parameter, -, rfl⟩ := step.of_isUnlisted (Bool.eq_true_of_not_eq_false h)
    cases passes _ rfl
  · rintro h cause rfl
    cases step with
    | unknown unlisted parameter => simp [isUnlisted, unlisted] at h
    | calculationShort short => rfl
    | battleShort parameter short => rfl
    | flagsInvalid parameter invalid encounter rest => rfl
    | encounterInvalid parameter flags invalid rest => rfl

end Token

/-- The failure of the first unlisted operation among the tokens of a script. -/
structure ScriptError.AtFirstUnlisted (error : ScriptError) (tokens : List Token) : Prop where
  isLeast : IsLeast {i | ∃ token, tokens[i]? = some token ∧ token.isUnlisted = true} error.index
  getElem?_index : tokens[error.index]? = some error.token
  cause_eq : ∃ opcode parameter,
    error.token = .operation opcode parameter ∧ error.cause = .unknownOpcode opcode

/-- There is only one first unlisted operation. -/
theorem ScriptError.AtFirstUnlisted.unique {tokens : List Token} {error other : ScriptError}
    (h : error.AtFirstUnlisted tokens) (h' : other.AtFirstUnlisted tokens) : error = other := by
  have hindex : error.index = other.index := h.isLeast.unique h'.isLeast
  have htoken : error.token = other.token := by
    have hget := h.getElem?_index
    rw [hindex, h'.getElem?_index] at hget
    exact (Option.some.inj hget).symm
  have hcause : error.cause = other.cause := by
    obtain ⟨opcode, parameter, hoperation, hcause⟩ := h.cause_eq
    obtain ⟨opcode', parameter', hoperation', hcause'⟩ := h'.cause_eq
    rw [htoken, hoperation'] at hoperation
    cases hoperation
    rw [hcause, hcause']
  cases error
  cases other
  cases hindex
  cases htoken
  cases hcause
  rfl

namespace Script

variable {index : Nat} {stack after : OperandStack} {tokens : List Token} {script : Script}
  {error : ScriptError}

/-- No token of a run that passes over errors is an unlisted operation. -/
theorem Run.isUnlisted_eq_false (run : Run .skip index stack tokens script after) :
    ∀ token ∈ tokens, token.isUnlisted = false := by
  induction run with
  | nil index stack => exact List.forall_mem_nil _
  | operand step run ih =>
    exact List.forall_mem_cons.mpr ⟨(Token.step_iff.mpr step).passes_skip_iff.mp nofun, ih⟩
  | instruction step run ih =>
    exact List.forall_mem_cons.mpr ⟨(Token.step_iff.mpr step).passes_skip_iff.mp nofun, ih⟩
  | skipped step skip run ih =>
    refine List.forall_mem_cons.mpr ⟨(Token.step_iff.mpr step).passes_skip_iff.mp ?_, ih⟩
    rintro _ ⟨⟩
    exact skip

/-- Every failure that the lenient policy passes over is one of operands. -/
theorem Run.ofOperands_of_mem_diagnostics (run : Run .skip index stack tokens script after) :
    ∀ diagnostic ∈ script.diagnostics, diagnostic.error.OfOperands := by
  induction run with
  | nil index stack => exact List.forall_mem_nil _
  | operand step run ih => exact ih
  | instruction step run ih => exact ih
  | skipped step skip run ih =>
    exact List.forall_mem_cons.mpr ⟨(ErrorPolicy.stopsAt_skip_eq_false_iff _).mp skip, ih⟩

/-- Where errors are passed over a failure is at the first unlisted operation. -/
theorem atFirstUnlisted_of_decodeFrom_skip
    (h : (decodeFrom .skip 0 stack tokens).1 = .error error) : error.AtFirstUnlisted tokens := by
  obtain ⟨before, rest, head, next, rfl, hindex, run, hstep, hstop⟩ :=
    decodeFrom_eq_error_iff.mp (Prod.ext h rfl)
  have step := Token.step_iff.mpr hstep
  have hunlisted : error.token.isUnlisted = true := by
    by_contra hlisted
    have passes := step.passes_skip_iff.mpr (Bool.eq_false_of_not_eq_true hlisted)
    rw [passes _ rfl] at hstop
    cases hstop
  have hget : (before ++ error.token :: rest)[error.index]? = some error.token := by
    simp [hindex]
  obtain ⟨opcode, parameter, htoken, hcause⟩ := step.of_isUnlisted hunlisted
  refine ⟨⟨⟨error.token, hget, hunlisted⟩, ?_⟩, hget, opcode, parameter, htoken,
    Except.error.inj hcause⟩
  rintro i ⟨token, hi, hunlisted⟩
  -- the tokens before the failing one make a run, so all of them are listed
  by_contra hlt
  rw [List.getElem?_append_left (by omega)] at hi
  rw [run.isUnlisted_eq_false token (List.mem_of_getElem? hi)] at hunlisted
  cases hunlisted

/-- Where errors are passed over a script without a failure has no unlisted operation. -/
theorem isUnlisted_eq_false_of_decodeFrom_skip
    (h : (decodeFrom .skip 0 stack tokens).1 = .ok script) :
    ∀ token ∈ tokens, token.isUnlisted = false :=
  (decodeFrom_eq_ok_iff.mp (Prod.ext h rfl)).isUnlisted_eq_false

/-- Whatever waits on the stack, a lenient run ends at the first unlisted operation and
nowhere else. -/
theorem decodeFrom_skip_eq_error_iff (stack : OperandStack) :
    (decodeFrom .skip 0 stack tokens).1 = .error error ↔ error.AtFirstUnlisted tokens := by
  constructor
  · exact atFirstUnlisted_of_decodeFrom_skip
  · intro first
    cases h : (decodeFrom .skip 0 stack tokens).1 with
    | ok script =>
      obtain ⟨token, hi, hunlisted⟩ := first.isLeast.1
      rw [isUnlisted_eq_false_of_decodeFrom_skip h token (List.mem_of_getElem? hi)] at hunlisted
      cases hunlisted
    | error found => rw [(atFirstUnlisted_of_decodeFrom_skip h).unique first]

/-- Where errors are passed over a script fails exactly if it has an unlisted operation. -/
theorem exists_decode_skip_eq_error_iff :
    (∃ error, decode .skip tokens = .error error) ↔ ∃ token ∈ tokens, token.isUnlisted = true := by
  constructor
  · rintro ⟨error, h⟩
    obtain ⟨token, hi, hunlisted⟩ := (atFirstUnlisted_of_decodeFrom_skip h).isLeast.1
    exact ⟨token, List.mem_of_getElem? hi, hunlisted⟩
  · rintro ⟨token, hmem, hunlisted⟩
    cases h : decode .skip tokens with
    | ok script =>
      rw [isUnlisted_eq_false_of_decodeFrom_skip h token hmem] at hunlisted
      cases hunlisted
    | error error => exact ⟨error, rfl⟩

/-- The lenient policy ends a script at unlisted operations only. A script that has one
fails with the failure of the first, whatever waits on the stack and whatever failed before.
A script that has none decodes, and its failures are failures of operands. -/
theorem decode_skip_ends_at_unlisted (tokens : List Token) :
    ((∃ error, decode .skip tokens = .error error) ↔
      ∃ token ∈ tokens, token.isUnlisted = true) ∧
    (∀ error, decode .skip tokens = .error error ↔ error.AtFirstUnlisted tokens) ∧
    (∀ stack error, (decodeFrom .skip 0 stack tokens).1 = .error error ↔
      error.AtFirstUnlisted tokens) ∧
    ((∀ token ∈ tokens, token.isUnlisted = false) → ∃ script, decode .skip tokens = .ok script ∧
      ∀ diagnostic ∈ script.diagnostics, diagnostic.error.OfOperands) := by
  refine ⟨exists_decode_skip_eq_error_iff, fun error => decodeFrom_skip_eq_error_iff .empty,
    fun stack error => decodeFrom_skip_eq_error_iff stack, ?_⟩
  intro hlisted
  cases h : decode .skip tokens with
  | ok script =>
    obtain ⟨after, run⟩ := decode_eq_ok_iff.mp h
    exact ⟨script, rfl, run.ofOperands_of_mem_diagnostics⟩
  | error error =>
    obtain ⟨token, hmem, hunlisted⟩ := exists_decode_skip_eq_error_iff.mp ⟨error, h⟩
    rw [hlisted token hmem] at hunlisted
    cases hunlisted

/-- Two failures that are passed over, and then the opcode that pushes constants as that of
an operation. -/
def strayPush : List Token :=
  [.constant 1, .operation .battle 0, .calculation .sub, .operation .pushConstant 5, .constant 2,
    .operation ⟨0x2ff⟩ 0]

/-- The opcode of constants is unlisted as that of an operation and ends the script from every
stack, and up to it there are only failures over operands. -/
theorem decode_skip_ends_at_unlisted_strayPush :
    ScriptError.AtFirstUnlisted ⟨3, .operation .pushConstant 5, .unknownOpcode .pushConstant⟩
      strayPush ∧
    (∀ stack, (decodeFrom .skip 0 stack strayPush).1 =
      .error ⟨3, .operation .pushConstant 5, .unknownOpcode .pushConstant⟩) ∧
    (∀ token ∈ strayPush.take 3, token.isUnlisted = false) ∧
    ∃ script, decode .skip (strayPush.take 3) = .ok script ∧
      ∀ diagnostic ∈ script.diagnostics, diagnostic.error.OfOperands := by
  have herror : decode .skip strayPush =
      .error ⟨3, .operation .pushConstant 5, .unknownOpcode .pushConstant⟩ := by
    decide
  have hlisted : ∀ token ∈ strayPush.take 3, token.isUnlisted = false := by decide
  obtain ⟨-, hfirst, hstack, -⟩ := decode_skip_ends_at_unlisted strayPush
  have first := (hfirst _).mp herror
  exact ⟨first, fun stack => (hstack stack _).mpr first, hlisted,
    (decode_skip_ends_at_unlisted _).2.2.2 hlisted⟩

end Script

end EventScript
