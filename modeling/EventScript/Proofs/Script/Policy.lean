import EventScript.Proofs.Script.Run

/-!
# The two error policies

Under either policy a script is decoded in the same way up to the first token that
fails. There the strict policy ends the run. The lenient one goes on, unless the
opcode is unknown, and what it notes first is the error that ends the strict run.
-/

set_option autoImplicit false

namespace EventScript

/-- The opcode is known, and its operands are too few or not of the right sort. -/
inductive DecodeError.OfOperands : DecodeError → Prop where
  | stackUnderflow (opcode : Opcode) (needed available : Nat) :
      OfOperands (.stackUnderflow opcode needed available)
  | invalidOperand (opcode : Opcode) (operand : Expression) :
      OfOperands (.invalidOperand opcode operand)

/-- The lenient policy passes over the errors of operands, and only these. -/
theorem ErrorPolicy.stopsAt_skip_eq_false_iff (cause : DecodeError) :
    ErrorPolicy.skip.stopsAt cause = false ↔ cause.OfOperands := by
  cases cause with
  | stackUnderflow opcode needed available => exact iff_of_true rfl (.stackUnderflow ..)
  | invalidOperand opcode operand => exact iff_of_true rfl (.invalidOperand ..)
  | unknownOpcode opcode =>
    refine iff_of_false ?_ ?_
    · intro h
      cases h
    · intro h
      cases h

/-- The policy that passes over errors stops at an unknown opcode alone. -/
theorem ErrorPolicy.stopsAt_skip_eq_true_iff (cause : DecodeError) :
    ErrorPolicy.skip.stopsAt cause = true ↔ ∃ opcode, cause = .unknownOpcode opcode := by
  cases cause with
  | stackUnderflow opcode needed available => simp [stopsAt, DecodeError.endsScript]
  | invalidOperand opcode operand => simp [stopsAt, DecodeError.endsScript]
  | unknownOpcode opcode => simp [stopsAt, DecodeError.endsScript]

namespace Script

variable {index : Nat} {stack after : OperandStack} {tokens : List Token} {script : Script}

/-- The strict runs are the lenient ones that pass over nothing. -/
theorem run_abort_iff :
    Run .abort index stack tokens script after ↔
      Run .skip index stack tokens script after ∧ script.diagnostics = [] := by
  constructor
  · intro run
    induction run with
    | nil index stack => exact ⟨.nil index stack, rfl⟩
    | operand step run ih => exact ⟨.operand step ih.1, ih.2⟩
    | instruction step run ih => exact ⟨.instruction step ih.1, ih.2⟩
    | skipped step skip run ih => cases skip
  · rintro ⟨run, hnone⟩
    induction run with
    | nil index stack => exact .nil index stack
    | operand step run ih => exact .operand step (ih hnone)
    | instruction step run ih => exact .instruction step (ih hnone)
    | skipped step skip run ih => cases hnone

/-- Both policies decode a script to the same if either decodes it without a failure. -/
theorem decode_abort_eq_ok_iff :
    decode .abort tokens = .ok script ↔
      decode .skip tokens = .ok script ∧ script.diagnostics = [] := by
  rw [decode_eq_ok_iff, decode_eq_ok_iff]
  simp only [run_abort_iff]
  constructor
  · rintro ⟨after, run, hnone⟩
    exact ⟨⟨after, run⟩, hnone⟩
  · rintro ⟨⟨after, run⟩, hnone⟩
    exact ⟨after, run, hnone⟩

/-- A run over one token whose failure it notes is that failure. -/
theorem Run.step_of_diagnostics_eq_singleton {policy : ErrorPolicy} {token : Token}
    {diagnostic : Diagnostic} (run : Run policy index stack [token] script after)
    (h : diagnostic ∈ script.diagnostics) :
    token.decode.runOn stack = (.error diagnostic.error, after) ∧
      policy.stopsAt diagnostic.error = false ∧ script.diagnostics = [diagnostic] := by
  cases run with
  | operand step rest =>
    cases rest
    cases h
  | instruction step rest =>
    cases rest
    cases h
  | skipped step skip rest =>
    cases rest
    cases List.mem_singleton.mp h
    exact ⟨step, skip, rfl⟩

/-- Where the strict run ends at an error of operands, the lenient one notes it first. -/
theorem Run.skip_of_failure {before : List Token} {head : Script} {next : OperandStack}
    {token : Token} {cause : DecodeError} (run : Run .abort index stack before head next)
    (hstep : token.decode.runOn next = (.error cause, after)) (hcause : cause.OfOperands) :
    Run .skip index stack (before ++ [token])
      { head with
        diagnostics := [{ index := index + before.length, error := cause }]
        leftover := after.size } after := by
  obtain ⟨hskip, hnone⟩ := run_abort_iff.mp run
  have hnote : Run .skip (index + before.length) next [token] _ after :=
    .skipped hstep ((ErrorPolicy.stopsAt_skip_eq_false_iff cause).mpr hcause) (.nil _ _)
  have h := hskip.append hnote
  simp only [Script.append, consDiagnostic, hnone, List.nil_append, List.append_nil] at h
  exact h

/-- The lenient run over the tokens up to one notes only the failure of this token if
the strict run ends there at that error. -/
theorem decode_abort_eq_error_iff {cause : DecodeError} :
    (∃ token, decode .abort tokens = .error { index, token, cause }) ∧ cause.OfOperands ↔
      ∃ head, decode .skip (tokens.take (index + 1)) = .ok head ∧
        head.diagnostics = [{ index, error := cause }] := by
  constructor
  · rintro ⟨⟨token, herror⟩, hcause⟩
    obtain ⟨before, rest, head, next, after, rfl, rfl, run, hstep, -⟩ :=
      decode_eq_error_iff.mp herror
    have htake : (before ++ token :: rest).take (before.length + 1) = before ++ [token] := by
      rw [List.append_cons]
      exact List.take_left' (by simp)
    have hrun := run.skip_of_failure hstep hcause
    rw [Nat.zero_add] at hrun
    rw [htake]
    exact ⟨_, decode_eq_ok_iff.mpr ⟨after, hrun⟩, rfl⟩
  · rintro ⟨head, hhead, hdiag⟩
    obtain ⟨after, run⟩ := decode_eq_ok_iff.mp hhead
    -- the failure is at one of the tokens, so there is a last one among these
    have hlt : index < tokens.length := by
      have hmem : (⟨index, cause⟩ : Diagnostic) ∈ head.diagnostics := by simp [hdiag]
      have hindex := (run.index_of_mem_diagnostics hmem).2
      rw [List.length_take] at hindex
      dsimp only at hindex
      omega
    rw [← List.take_append_getElem hlt] at run
    obtain ⟨first, next, last, runFirst, runLast, rfl⟩ := run.of_append
    have hmem : (⟨index, cause⟩ : Diagnostic) ∈ last.diagnostics := by
      have hsome : (⟨index, cause⟩ : Diagnostic) ∈ first.diagnostics ++ last.diagnostics := by
        have hdiag' : first.diagnostics ++ last.diagnostics = _ := hdiag
        simp [hdiag']
      rcases List.mem_append.mp hsome with h | h
      · have hindex := (runFirst.index_of_mem_diagnostics h).2
        simp only [List.length_take] at hindex
        omega
      · exact h
    obtain ⟨hstep, hskip, hlast⟩ := runLast.step_of_diagnostics_eq_singleton hmem
    have hfirst : first.diagnostics = [] := by
      have hdiag' : first.diagnostics ++ last.diagnostics = _ := hdiag
      rw [hlast] at hdiag'
      exact List.append_left_eq_self.mp hdiag'
    refine ⟨⟨tokens[index], ?_⟩, (ErrorPolicy.stopsAt_skip_eq_false_iff cause).mp hskip⟩
    refine decode_eq_error_iff.mpr ⟨tokens.take index, tokens.drop (index + 1), first, next, after,
      ?_, ?_, run_abort_iff.mpr ⟨runFirst, hfirst⟩, hstep, rfl⟩
    · rw [List.getElem_cons_drop, List.take_append_drop]
    · rw [List.length_take]
      exact (Nat.min_eq_left (Nat.le_of_lt hlt)).symm

/-- An unknown opcode ends a script under both policies, and the strict run reaches it
if the lenient one passes over nothing before. -/
theorem decode_abort_eq_unknownOpcode_iff {error : ScriptError} :
    decode .abort tokens = .error error ∧ (∃ opcode, error.cause = .unknownOpcode opcode) ↔
      decode .skip tokens = .error error ∧
        ∃ head, decode .skip (tokens.take error.index) = .ok head ∧ head.diagnostics = [] := by
  constructor
  · rintro ⟨herror, hcause⟩
    obtain ⟨before, rest, head, next, after, rfl, hindex, run, hstep, -⟩ :=
      decode_eq_error_iff.mp herror
    obtain ⟨runSkip, hnone⟩ := run_abort_iff.mp run
    refine ⟨decode_eq_error_iff.mpr ⟨before, rest, head, next, after, rfl, hindex, runSkip,
      hstep, (ErrorPolicy.stopsAt_skip_eq_true_iff _).mpr hcause⟩, head, ?_, hnone⟩
    rw [hindex, List.take_left]
    exact decode_eq_ok_iff.mpr ⟨next, runSkip⟩
  · rintro ⟨herror, head, hhead, hnone⟩
    obtain ⟨before, rest, script, next, after, rfl, hindex, run, hstep, hstop⟩ :=
      decode_eq_error_iff.mp herror
    rw [hindex, List.take_left] at hhead
    have hscript : decode .skip before = .ok script := decode_eq_ok_iff.mpr ⟨next, run⟩
    obtain rfl : head = script := Except.ok.inj (hhead.symm.trans hscript)
    exact ⟨decode_eq_error_iff.mpr ⟨before, rest, head, next, after, rfl, hindex,
      run_abort_iff.mpr ⟨run, hnone⟩, hstep, rfl⟩, (ErrorPolicy.stopsAt_skip_eq_true_iff _).mp hstop⟩

/-- What the strict run has decoded when an error of operands ends it begins the script
that the lenient run makes of all tokens, and that error is the first that it notes. -/
theorem first_failure_of_decode_abort {error : ScriptError} {whole : Script}
    (herror : decode .abort tokens = .error error) (hcause : error.cause.OfOperands)
    (hwhole : decode .skip tokens = .ok whole) :
    whole.diagnostics.head? = some { index := error.index, error := error.cause } ∧
      ∃ head, decode .abort (tokens.take error.index) = .ok head ∧
        head.instructions <+: whole.instructions := by
  obtain ⟨before, rest, head, next, after, rfl, hindex, run, hstep, -⟩ :=
    decode_eq_error_iff.mp herror
  obtain ⟨last, runWhole⟩ := decode_eq_ok_iff.mp hwhole
  have hrun := run.skip_of_failure hstep hcause
  rw [List.append_cons] at runWhole
  obtain ⟨first, mid, tail, runFirst, runTail, rfl⟩ := runWhole.of_append
  have hfirst := decodeFrom_eq_ok_iff.mpr runFirst
  rw [decodeFrom_eq_ok_iff.mpr hrun] at hfirst
  cases hfirst
  refine ⟨?_, head, ?_, List.prefix_append _ _⟩
  · rw [hindex]
    simp [append]
  · rw [hindex, List.take_left]
    exact decode_eq_ok_iff.mpr ⟨next, run⟩

/-- The two policies agree wherever they may. A script decodes strictly to what it
decodes to leniently without a failure. It ends strictly at an unknown opcode where it
ends leniently with the same error and no failure before. It ends strictly at an error
of operands that is the only failure which the tokens as far as this one have leniently;
this is then the first failure of all tokens, if they decode leniently at all, and the
instructions of the tokens before are the first instructions of all. -/
theorem policies_agree (tokens : List Token) :
    (∀ script, decode .abort tokens = .ok script ↔
      decode .skip tokens = .ok script ∧ script.diagnostics = []) ∧
    (∀ error,
      decode .abort tokens = .error error ∧ (∃ opcode, error.cause = .unknownOpcode opcode) ↔
        decode .skip tokens = .error error ∧
          ∃ head, decode .skip (tokens.take error.index) = .ok head ∧ head.diagnostics = []) ∧
    (∀ index cause,
      (∃ token, decode .abort tokens = .error { index, token, cause }) ∧ cause.OfOperands ↔
        ∃ head, decode .skip (tokens.take (index + 1)) = .ok head ∧
          head.diagnostics = [{ index, error := cause }]) ∧
    ∀ error whole, decode .abort tokens = .error error → error.cause.OfOperands →
      decode .skip tokens = .ok whole →
      whole.diagnostics.head? = some { index := error.index, error := error.cause } ∧
        ∀ policy, ∃ head, decode policy (tokens.take error.index) = .ok head ∧
          head.instructions <+: whole.instructions := by
  refine ⟨fun script => decode_abort_eq_ok_iff, fun error => decode_abort_eq_unknownOpcode_iff,
    fun index cause => decode_abort_eq_error_iff, ?_⟩
  intro error whole herror hcause hwhole
  obtain ⟨hfirst, head, hhead, hprefix⟩ := first_failure_of_decode_abort herror hcause hwhole
  refine ⟨hfirst, ?_⟩
  intro policy
  cases policy with
  | abort => exact ⟨head, hhead, hprefix⟩
  | skip => exact ⟨head, (decode_abort_eq_ok_iff.mp hhead).1, hprefix⟩

end Script

end EventScript
