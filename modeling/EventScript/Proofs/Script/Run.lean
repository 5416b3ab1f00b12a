import EventScript.Script.Decode

/-!
# Runs of the decoder

Decoding goes through the tokens once, from left to right, and what it knows of the
tokens behind it is the operand stack. A run over a concatenation is therefore a run
over the first part and, if that succeeds, a run over the second from the stack that
the first left; the position at which a run starts only moves the positions that it
reports. From these two facts follows where a run fails: at the first token whose
error the policy does not pass over.
-/

set_option autoImplicit false

namespace EventScript

/-- The same failure, `count` tokens further on. -/
def Diagnostic.shift (count : Nat) (diagnostic : Diagnostic) : Diagnostic :=
  { diagnostic with index := diagnostic.index + count }

/-- The same failure, `count` tokens further on. -/
def ScriptError.shift (count : Nat) (error : ScriptError) : ScriptError :=
  { error with index := error.index + count }

namespace Script

/-- A script whose tokens stand `count` positions further on. -/
def shift (count : Nat) (script : Script) : Script :=
  { script with diagnostics := script.diagnostics.map (Diagnostic.shift count) }

/-- A script followed by another, which was decoded from the stack that the first
left. -/
def append (first second : Script) : Script where
  instructions := first.instructions ++ second.instructions
  diagnostics := first.diagnostics ++ second.diagnostics
  leftover := second.leftover

/-! ## One token -/

variable {policy : ErrorPolicy} {index : Nat} {stack after : OperandStack}
  {token : Token} {rest : List Token}

/-- A token that decodes no instruction only changes the stack. -/
theorem decodeFrom_cons_of_none (h : token.decode.runOn stack = (.ok none, after)) :
    decodeFrom policy index stack (token :: rest) =
      decodeFrom policy (index + 1) after rest := by
  rw [decodeFrom, h]

/-- An instruction that a token decodes comes before those of the tokens after it. -/
theorem decodeFrom_cons_of_some {i : Instruction}
    (h : token.decode.runOn stack = (.ok (some i), after)) :
    decodeFrom policy index stack (token :: rest) =
      ((decodeFrom policy (index + 1) after rest).1.map (consInstruction i),
        (decodeFrom policy (index + 1) after rest).2) := by
  rw [decodeFrom, h]

/-- An error that the policy does not pass over ends the run. -/
theorem decodeFrom_cons_of_stop {cause : DecodeError}
    (h : token.decode.runOn stack = (.error cause, after))
    (hstop : policy.stopsAt cause = true) :
    decodeFrom policy index stack (token :: rest) =
      (.error { index, token, cause }, after) := by
  rw [decodeFrom, h]
  exact if_pos hstop

/-- An error that the policy passes over is noted before those of the tokens after it. -/
theorem decodeFrom_cons_of_skip {cause : DecodeError}
    (h : token.decode.runOn stack = (.error cause, after))
    (hskip : policy.stopsAt cause = false) :
    decodeFrom policy index stack (token :: rest) =
      ((decodeFrom policy (index + 1) after rest).1.map
          (consDiagnostic { index, error := cause }),
        (decodeFrom policy (index + 1) after rest).2) := by
  rw [decodeFrom, h]
  simp only [hskip, Bool.false_eq_true, if_false]

/-! ## Concatenation -/

variable {first : List Token} {script : Script} {error : ScriptError}

/-- A run is the run over a first part and, if that succeeds, the run over the rest
from the stack that the first part left. -/
theorem decodeFrom_append (first second : List Token) :
    decodeFrom policy index stack (first ++ second) =
      match decodeFrom policy index stack first with
      | (.error error, after) => (.error error, after)
      | (.ok script, after) =>
        ((decodeFrom policy (index + first.length) after second).1.map script.append,
          (decodeFrom policy (index + first.length) after second).2) := by
  induction first generalizing index stack with
  | nil =>
    rcases h : decodeFrom policy index stack second with ⟨_ | other, after⟩ <;>
      simp only [List.nil_append, decodeFrom, List.length_nil, Nat.add_zero, h] <;> rfl
  | cons token first ih =>
    have hindex : index + (token :: first).length = index + 1 + first.length := by
      rw [List.length_cons]
      omega
    rw [List.cons_append, hindex]
    -- every token hands the rest of the run to the induction hypothesis, or ends it
    rcases hstep : token.decode.runOn stack with ⟨cause | (_ | i), after⟩
    · cases hstop : policy.stopsAt cause with
      | true => rw [decodeFrom_cons_of_stop hstep hstop, decodeFrom_cons_of_stop hstep hstop]
      | false =>
        rw [decodeFrom_cons_of_skip hstep hstop, decodeFrom_cons_of_skip hstep hstop, ih]
        rcases decodeFrom policy (index + 1) after first with ⟨_ | script, last⟩
        · rfl
        · dsimp only [Except.map]
          rcases decodeFrom policy (index + 1 + first.length) last second with ⟨_ | _, _⟩ <;> rfl
    · rw [decodeFrom_cons_of_none hstep, decodeFrom_cons_of_none hstep, ih]
    · rw [decodeFrom_cons_of_some hstep, decodeFrom_cons_of_some hstep, ih]
      rcases decodeFrom policy (index + 1) after first with ⟨_ | script, last⟩
      · rfl
      · dsimp only [Except.map]
        rcases decodeFrom policy (index + 1 + first.length) last second with ⟨_ | _, _⟩ <;> rfl

/-- What follows a token that ends a run makes no difference. -/
theorem decodeFrom_append_of_error
    (h : decodeFrom policy index stack first = (.error error, after)) (second : List Token) :
    decodeFrom policy index stack (first ++ second) = (.error error, after) := by
  rw [decodeFrom_append, h]

/-- What follows a run that succeeds is decoded from the stack that it left. -/
theorem decodeFrom_append_of_ok
    (h : decodeFrom policy index stack first = (.ok script, after)) (second : List Token) :
    decodeFrom policy index stack (first ++ second) =
      ((decodeFrom policy (index + first.length) after second).1.map script.append,
        (decodeFrom policy (index + first.length) after second).2) := by
  rw [decodeFrom_append, h]

/-! ## Position -/

/-- A run that starts further on reports the same, as much further on. -/
theorem decodeFrom_add (count : Nat) (tokens : List Token) :
    decodeFrom policy (index + count) stack tokens =
      match decodeFrom policy index stack tokens with
      | (.error error, after) => (.error (error.shift count), after)
      | (.ok script, after) => (.ok (script.shift count), after) := by
  induction tokens generalizing index stack with
  | nil => rfl
  | cons token rest ih =>
    have hindex : index + count + 1 = index + 1 + count := by omega
    rcases hstep : token.decode.runOn stack with ⟨cause | (_ | i), after⟩
    · cases hstop : policy.stopsAt cause with
      | true => rw [decodeFrom_cons_of_stop hstep hstop, decodeFrom_cons_of_stop hstep hstop]; rfl
      | false =>
        rw [decodeFrom_cons_of_skip hstep hstop, decodeFrom_cons_of_skip hstep hstop, hindex, ih]
        rcases decodeFrom policy (index + 1) after rest with ⟨_ | script, last⟩ <;> rfl
    · rw [decodeFrom_cons_of_none hstep, decodeFrom_cons_of_none hstep, hindex, ih]
    · rw [decodeFrom_cons_of_some hstep, decodeFrom_cons_of_some hstep, hindex, ih]
      rcases decodeFrom policy (index + 1) after rest with ⟨_ | script, last⟩ <;> rfl

/-! ## Successful runs -/

/-- `Run policy index stack tokens script after`: from `stack` the tokens decode to
`script`, the first of them at position `index`, and leave `after`. -/
inductive Run (policy : ErrorPolicy) :
    Nat → OperandStack → List Token → Script → OperandStack → Prop
  | nil (index : Nat) (stack : OperandStack) :
      Run policy index stack [] { leftover := stack.size } stack
  | operand {index : Nat} {token : Token} {rest : List Token}
      {stack next after : OperandStack} {script : Script}
      (step : token.decode.runOn stack = (.ok none, next))
      (run : Run policy (index + 1) next rest script after) :
      Run policy index stack (token :: rest) script after
  | instruction {index : Nat} {token : Token} {rest : List Token}
      {stack next after : OperandStack} {script : Script} {i : Instruction}
      (step : token.decode.runOn stack = (.ok (some i), next))
      (run : Run policy (index + 1) next rest script after) :
      Run policy index stack (token :: rest) (script.consInstruction i) after
  | skipped {index : Nat} {token : Token} {rest : List Token}
      {stack next after : OperandStack} {script : Script} {cause : DecodeError}
      (step : token.decode.runOn stack = (.error cause, next))
      (skip : policy.stopsAt cause = false)
      (run : Run policy (index + 1) next rest script after) :
      Run policy index stack (token :: rest)
        (script.consDiagnostic { index, error := cause }) after

/-- The runs are those of the decoder. -/
theorem decodeFrom_eq_ok_iff {tokens : List Token} :
    decodeFrom policy index stack tokens = (.ok script, after) ↔
      Run policy index stack tokens script after := by
  constructor
  · intro h
    induction tokens generalizing index stack script with
    | nil =>
      cases h
      exact .nil _ _
    | cons token rest ih =>
      rcases hstep : token.decode.runOn stack with ⟨cause | (_ | i), next⟩
      · cases hstop : policy.stopsAt cause with
        | true =>
          rw [decodeFrom_cons_of_stop hstep hstop] at h
          cases h
        | false =>
          rw [decodeFrom_cons_of_skip hstep hstop] at h
          rcases hrest : decodeFrom policy (index + 1) next rest with ⟨_ | tail, last⟩ <;>
            rw [hrest] at h <;> cases h
          exact .skipped hstep hstop (ih hrest)
      · rw [decodeFrom_cons_of_none hstep] at h
        exact .operand hstep (ih h)
      · rw [decodeFrom_cons_of_some hstep] at h
        rcases hrest : decodeFrom policy (index + 1) next rest with ⟨_ | tail, last⟩ <;>
          rw [hrest] at h <;> cases h
        exact .instruction hstep (ih hrest)
  · intro run
    induction run with
    | nil index stack => rfl
    | operand step run ih => rw [decodeFrom_cons_of_none step, ih]
    | instruction step run ih => rw [decodeFrom_cons_of_some step, ih]; rfl
    | skipped step skip run ih => rw [decodeFrom_cons_of_skip step skip, ih]; rfl

/-- A script decodes by itself if it has a run from the empty stack. -/
theorem decode_eq_ok_iff {tokens : List Token} :
    decode policy tokens = .ok script ↔ ∃ after, Run policy 0 .empty tokens script after := by
  unfold decode
  constructor
  · intro h
    exact ⟨_, decodeFrom_eq_ok_iff.mp (Prod.ext h rfl)⟩
  · rintro ⟨after, run⟩
    rw [decodeFrom_eq_ok_iff.mpr run]

namespace Run

variable {tokens : List Token}

/-- A run counts the operands that it leaves. -/
theorem leftover_eq (run : Run policy index stack tokens script after) :
    script.leftover = after.size := by
  induction run with
  | nil index stack => rfl
  | operand step run ih => exact ih
  | instruction step run ih => exact ih
  | skipped step skip run ih => exact ih

/-- The failures that a run passes over are at positions of its tokens. -/
theorem index_of_mem_diagnostics (run : Run policy index stack tokens script after)
    {diagnostic : Diagnostic} (h : diagnostic ∈ script.diagnostics) :
    index ≤ diagnostic.index ∧ diagnostic.index < index + tokens.length := by
  induction run with
  | nil index stack => cases h
  | operand step run ih =>
    have := ih h
    rw [List.length_cons]
    omega
  | instruction step run ih =>
    have := ih h
    rw [List.length_cons]
    omega
  | skipped step skip run ih =>
    rw [List.length_cons]
    rcases List.mem_cons.mp h with rfl | h
    · dsimp only
      omega
    · have := ih h
      omega

/-- Runs compose where the stack of one is the start of the next. -/
theorem append {next : OperandStack} {first second : List Token} {head tail : Script}
    (run : Run policy index stack first head next)
    (run' : Run policy (index + first.length) next second tail after) :
    Run policy index stack (first ++ second) (head.append tail) after := by
  rw [← decodeFrom_eq_ok_iff] at run run' ⊢
  rw [decodeFrom_append_of_ok run, run']
  rfl

/-- A run over a concatenation is a run over either part. -/
theorem of_append {first second : List Token}
    (run : Run policy index stack (first ++ second) script after) :
    ∃ head next tail,
      Run policy index stack first head next ∧
      Run policy (index + first.length) next second tail after ∧
      script = head.append tail := by
  rw [← decodeFrom_eq_ok_iff] at run
  rcases hfirst : decodeFrom policy index stack first with ⟨error | head, next⟩
  · rw [decodeFrom_append_of_error hfirst] at run
    cases run
  · rw [decodeFrom_append_of_ok hfirst] at run
    rcases hsecond : decodeFrom policy (index + first.length) next second with
      ⟨error | tail, last⟩ <;> rw [hsecond] at run <;> cases run
    exact ⟨head, next, tail, decodeFrom_eq_ok_iff.mp hfirst, decodeFrom_eq_ok_iff.mp hsecond, rfl⟩

end Run

/-! ## Failing runs -/

/-- A run fails at the first token whose error the policy does not pass over, and
leaves the stack that this token left. -/
theorem decodeFrom_eq_error_iff {tokens : List Token} :
    decodeFrom policy index stack tokens = (.error error, after) ↔
      ∃ before rest script next,
        tokens = before ++ error.token :: rest ∧
        error.index = index + before.length ∧
        Run policy index stack before script next ∧
        error.token.decode.runOn next = (.error error.cause, after) ∧
        policy.stopsAt error.cause = true := by
  constructor
  · intro h
    induction tokens generalizing index stack with
    | nil => cases h
    | cons token rest ih =>
      rcases hstep : token.decode.runOn stack with ⟨cause | (_ | i), next⟩
      · cases hstop : policy.stopsAt cause with
        | true =>
          rw [decodeFrom_cons_of_stop hstep hstop] at h
          cases h
          exact ⟨[], rest, _, stack, rfl, rfl, .nil _ _, hstep, hstop⟩
        | false =>
          rw [decodeFrom_cons_of_skip hstep hstop] at h
          rcases hrest : decodeFrom policy (index + 1) next rest with ⟨_ | tail, last⟩ <;>
            rw [hrest] at h <;> cases h
          obtain ⟨before, tail, script, mid, rfl, hindex, run, hfail⟩ := ih hrest
          refine ⟨token :: before, tail, _, mid, rfl, ?_, .skipped hstep hstop run, hfail⟩
          rw [List.length_cons]
          omega
      · rw [decodeFrom_cons_of_none hstep] at h
        obtain ⟨before, tail, script, mid, rfl, hindex, run, hfail⟩ := ih h
        refine ⟨token :: before, tail, _, mid, rfl, ?_, .operand hstep run, hfail⟩
        rw [List.length_cons]
        omega
      · rw [decodeFrom_cons_of_some hstep] at h
        rcases hrest : decodeFrom policy (index + 1) next rest with ⟨_ | tail, last⟩ <;>
          rw [hrest] at h <;> cases h
        obtain ⟨before, tail, script, mid, rfl, hindex, run, hfail⟩ := ih hrest
        refine ⟨token :: before, tail, _, mid, rfl, ?_, .instruction hstep run, hfail⟩
        rw [List.length_cons]
        omega
  · rintro ⟨before, rest, script, next, rfl, hindex, run, hstep, hstop⟩
    rw [decodeFrom_append_of_ok (decodeFrom_eq_ok_iff.mpr run), decodeFrom_cons_of_stop hstep hstop,
      ← hindex]
    rfl

/-- A script fails by itself where its run from the empty stack does. -/
theorem decode_eq_error_iff {tokens : List Token} :
    decode policy tokens = .error error ↔
      ∃ before rest script next after,
        tokens = before ++ error.token :: rest ∧
        error.index = before.length ∧
        Run policy 0 .empty before script next ∧
        error.token.decode.runOn next = (.error error.cause, after) ∧
        policy.stopsAt error.cause = true := by
  have hrun : decode policy tokens = .error error ↔
      ∃ after, decodeFrom policy 0 .empty tokens = (.error error, after) := by
    unfold decode
    constructor
    · intro h
      exact ⟨_, Prod.ext h rfl⟩
    · rintro ⟨after, h⟩
      rw [h]
  rw [hrun]
  simp only [decodeFrom_eq_error_iff, Nat.zero_add]
  constructor
  · rintro ⟨after, before, rest, script, next, h⟩
    exact ⟨before, rest, script, next, after, h⟩
  · rintro ⟨before, rest, script, next, after, h⟩
    exact ⟨after, before, rest, script, next, h⟩

/-- A failure names the token at its position. -/
theorem getElem?_index_of_decode_eq_error {tokens : List Token}
    (h : decode policy tokens = .error error) : tokens[error.index]? = some error.token := by
  obtain ⟨before, rest, script, next, after, rfl, hindex, -⟩ := decode_eq_error_iff.mp h
  rw [hindex]
  simp

end Script

end EventScript
