import EventScript.Proofs.Script.Feeding
import Mathlib.Logic.Function.Iterate

/-!
# Decoders side by side

Scripts that have nothing to do with each other are each decoded by a decoder of their
own, and the decoders may take their turns in any order. A turn leaves every decoding but
one as it is, so where a decoding stands is a matter of how many turns it has had; and no
turn changes what a decoding ends with, for what has been decoded of its script and what its
own stack makes of the rest give that at any time.
-/

set_option autoImplicit false

namespace EventScript

/-- The decoding of a script by a decoder of its own, which goes on by one token at a
time. -/
inductive Decoding where
  /-- Tokens from a position on are left, and those before them gave a part of the script. -/
  | underway (decoder : Decoder) (index : Nat) (script : Script) (rest : List Token)
  /-- The script has come to its end, or to an error that the policy does not pass over. -/
  | finished (result : Except ScriptError Script)
  deriving DecidableEq

namespace Decoding

/-- Nothing has been decoded, and nothing waits. -/
def start (policy : ErrorPolicy) (tokens : List Token) : Decoding :=
  underway { policy } 0 {} tokens

/-- One turn: the decoder is fed the next token, or there is none and the script is
given. -/
def step : Decoding → Decoding
  | underway decoder index script (token :: rest) =>
    match decoder.feed token with
    | (.ok none, decoder) => underway decoder (index + 1) script rest
    | (.ok (some i), decoder) =>
      underway decoder (index + 1) { script with instructions := script.instructions ++ [i] } rest
    | (.error cause, decoder) =>
      if decoder.policy.stopsAt cause then finished (.error { index, token, cause })
      else underway decoder (index + 1)
        { script with diagnostics := script.diagnostics ++ [{ index, error := cause }] } rest
  | underway decoder _ script [] => finished (.ok { script with leftover := decoder.stack.size })
  | finished result => finished result

/-- Whether there is a result. -/
def isFinished : Decoding → Bool
  | underway .. => false
  | finished _ => true

/-- How many turns are left, unless an error takes the rest of them away. -/
def turns : Decoding → Nat
  | underway _ _ _ rest => rest.length + 1
  | finished _ => 0

/-- What a decoding ends with. -/
def outcome : Decoding → Except ScriptError Script
  | underway decoder index script rest =>
    (Script.decodeFrom decoder.policy index decoder.stack rest).1.map script.append
  | finished result => result

/-! ## One turn -/

section Turn

variable {decoder : Decoder} {index : Nat} {script : Script} {token : Token} {rest : List Token}
  {stack : OperandStack} {i : Instruction} {cause : DecodeError}

/-- A token that gives nothing moves the decoding on by one. -/
theorem step_of_none (h : token.Step decoder.stack (.ok none) stack) :
    (underway decoder index script (token :: rest)).step =
      underway { decoder with stack } (index + 1) script rest := by
  rw [step, Decoder.feed_of_step h]

/-- A token that gives an instruction adds it behind the others. -/
theorem step_of_some (h : token.Step decoder.stack (.ok (some i)) stack) :
    (underway decoder index script (token :: rest)).step =
      underway { decoder with stack } (index + 1)
        { script with instructions := script.instructions ++ [i] } rest := by
  rw [step, Decoder.feed_of_step h]

/-- An error at which the policy stops finishes the decoding. -/
theorem step_of_stop (h : token.Step decoder.stack (.error cause) stack)
    (hstop : decoder.policy.stopsAt cause = true) :
    (underway decoder index script (token :: rest)).step =
      finished (.error { index, token, cause }) := by
  rw [step, Decoder.feed_of_step h]
  exact if_pos hstop

/-- An error that the policy passes over is added behind the others. -/
theorem step_of_skip (h : token.Step decoder.stack (.error cause) stack)
    (hskip : decoder.policy.stopsAt cause = false) :
    (underway decoder index script (token :: rest)).step =
      underway { decoder with stack } (index + 1)
        { script with diagnostics := script.diagnostics ++ [{ index, error := cause }] } rest := by
  rw [step, Decoder.feed_of_step h]
  exact if_neg (ne_of_eq_of_ne hskip Bool.false_ne_true)

end Turn

/-- A decoding that has not begun comes to what its tokens decode to. -/
theorem outcome_start (policy : ErrorPolicy) (tokens : List Token) :
    (start policy tokens).outcome = Script.decode policy tokens := by
  rw [start, outcome, Script.decode]
  cases (Script.decodeFrom policy 0 .empty tokens).1 <;> rfl

/-- A turn does not change what a decoding ends with. -/
theorem outcome_step (decoding : Decoding) : decoding.step.outcome = decoding.outcome := by
  rcases decoding with ⟨decoder, index, script, _ | ⟨token, rest⟩⟩ | result
  · simp [step, outcome, Script.decodeFrom, Except.map, Script.append]
  · obtain ⟨found, stack, h⟩ := token.exists_step decoder.stack
    -- what the token gives is the last of this part of the script or the first of the rest
    rcases found with cause | (_ | i)
    · cases hstop : decoder.policy.stopsAt cause with
      | true =>
        rw [step_of_stop h hstop, outcome, outcome,
          Script.decodeFrom_cons_of_stop h.runOn_decode hstop]
        rfl
      | false =>
        rw [step_of_skip h hstop, outcome, outcome,
          Script.decodeFrom_cons_of_skip h.runOn_decode hstop]
        cases (Script.decodeFrom decoder.policy (index + 1) stack rest).1 <;>
          simp [Except.map, Script.append, Script.consDiagnostic]
    · rw [step_of_none h, outcome, outcome, Script.decodeFrom_cons_of_none h.runOn_decode]
    · rw [step_of_some h, outcome, outcome, Script.decodeFrom_cons_of_some h.runOn_decode]
      cases (Script.decodeFrom decoder.policy (index + 1) stack rest).1 <;>
        simp [Except.map, Script.append, Script.consInstruction]
  · rfl

/-- After a turn there is one turn less to come, at least. -/
theorem turns_step_le (decoding : Decoding) : decoding.step.turns ≤ decoding.turns - 1 := by
  rcases decoding with ⟨decoder, index, script, _ | ⟨token, rest⟩⟩ | result
  · exact Nat.le_refl 0
  · obtain ⟨found, stack, h⟩ := token.exists_step decoder.stack
    rcases found with cause | (_ | i)
    · cases hstop : decoder.policy.stopsAt cause with
      | true =>
        rw [step_of_stop h hstop]
        exact Nat.zero_le _
      | false =>
        rw [step_of_skip h hstop]
        exact Nat.le_refl _
    · rw [step_of_none h]
      exact Nat.le_refl _
    · rw [step_of_some h]
      exact Nat.le_refl _
  · exact Nat.le_refl 0

/-! ## Many turns -/

/-- Each turn takes away at least one of those that are left. -/
theorem turns_iterate_step_le (decoding : Decoding) (count : Nat) :
    (step^[count] decoding).turns ≤ decoding.turns - count := by
  induction count with
  | zero => exact Nat.le_refl _
  | succ count ih =>
    rw [Function.iterate_succ_apply']
    have hstep := turns_step_le (step^[count] decoding)
    omega

/-- A decoding is finished exactly if no turn is left. -/
theorem isFinished_iff_turns_eq_zero (decoding : Decoding) :
    decoding.isFinished = true ↔ decoding.turns = 0 := by
  cases decoding <;> simp [isFinished, turns]

/-- A finished decoding is its outcome and nothing else. -/
theorem eq_finished_of_isFinished {decoding : Decoding} (h : decoding.isFinished = true) :
    decoding = finished decoding.outcome := by
  cases decoding with
  | underway => exact absurd h Bool.false_ne_true
  | finished result => rfl

/-- A decoding that has had more turns than there are tokens has come to its result. -/
theorem isFinished_iterate_step_start (policy : ErrorPolicy) {tokens : List Token} {count : Nat}
    (h : tokens.length < count) : (step^[count] (start policy tokens)).isFinished = true := by
  have hstart : (start policy tokens).turns = tokens.length + 1 := rfl
  have hturns := turns_iterate_step_le (start policy tokens) count
  rw [isFinished_iff_turns_eq_zero]
  omega

/-! ## Side by side -/

/-- Decodings take turns. A schedule gives the position of the decoding whose turn it is,
turn by turn. -/
def interleave : List Nat → List Decoding → List Decoding
  | [], decodings => decodings
  | turn :: schedule, decodings => interleave schedule (decodings.modify turn step)

/-- What decodings end with does not depend on the turns that they have had. -/
theorem map_outcome_interleave (schedule : List Nat) (decodings : List Decoding) :
    (interleave schedule decodings).map outcome = decodings.map outcome := by
  induction schedule generalizing decodings with
  | nil => rfl
  | cons turn schedule ih =>
    have hturn : (decodings.modify turn step).map outcome = decodings.map outcome := by
      refine List.ext_getElem? fun position => ?_
      rw [List.getElem?_map, List.getElem?_map, List.getElem?_modify, Option.map_eq_map,
        Option.map_map]
      congr 1
      funext decoding
      rw [Function.comp_apply]
      split
      · exact outcome_step decoding
      · rfl
    rw [interleave, ih, hturn]

/-- When every decoding has come to its result, the results are those of the scripts by
themselves, in the same order. -/
theorem interleave_start_eq_finished {policy : ErrorPolicy} {scripts : List (List Token)}
    {schedule : List Nat}
    (h : ∀ decoding ∈ interleave schedule (scripts.map (start policy)),
      decoding.isFinished = true) :
    interleave schedule (scripts.map (start policy)) =
      (Script.decodeAll policy scripts).map finished := by
  have houtcomes : (interleave schedule (scripts.map (start policy))).map outcome =
      Script.decodeAll policy scripts := by
    rw [map_outcome_interleave, List.map_map, Script.decodeAll]
    exact List.map_congr_left fun tokens _ => outcome_start policy tokens
  rw [← houtcomes, List.map_map]
  exact ((List.map_congr_left fun decoding hmem =>
    (eq_finished_of_isFinished (h decoding hmem)).symm).trans (List.map_id _)).symm

/-- Where a decoding stands depends on how many turns it has had, and on no other
decoding. -/
theorem getElem?_interleave (schedule : List Nat) (decodings : List Decoding) (position : Nat) :
    (interleave schedule decodings)[position]? =
      decodings[position]?.map step^[schedule.count position] := by
  induction schedule generalizing decodings with
  | nil => exact (Option.map_id_apply ..).symm
  | cons turn schedule ih =>
    rw [interleave, ih]
    -- the first turn counts for the decoding that takes it, and for no other
    by_cases hturn : turn = position
    · subst hturn
      rw [List.getElem?_modify_eq, List.count_cons_self, Option.map_eq_map, Option.map_map,
        Function.iterate_succ]
    · rw [List.getElem?_modify_ne _ _ hturn, List.count_cons_of_ne hturn]

/-- Every decoding comes to its result if each has enough turns. -/
theorem isFinished_of_mem_interleave_start {policy : ErrorPolicy} {scripts : List (List Token)}
    {schedule : List Nat}
    (h : ∀ position tokens, scripts[position]? = some tokens →
      tokens.length < schedule.count position) :
    ∀ decoding ∈ interleave schedule (scripts.map (start policy)),
      decoding.isFinished = true := by
  intro decoding hmem
  obtain ⟨position, hposition⟩ := List.getElem?_of_mem hmem
  rw [getElem?_interleave, List.getElem?_map, Option.map_map, Option.map_eq_some_iff] at hposition
  obtain ⟨tokens, htokens, rfl⟩ := hposition
  exact isFinished_iterate_step_start policy (h position tokens htokens)

/-- Scripts do not make a difference to each other. Decoded side by side, in whatever order
their decoders take turns, all of them end as they do by themselves as soon as all have
ended, which they have when each has had enough turns; and a decoder that decodes one
after another gives the same, whatever it was used for before. -/
theorem scripts_decode_independently (policy : ErrorPolicy) (scripts : List (List Token)) :
    (∀ schedule : List Nat,
        (∀ decoding ∈ interleave schedule (scripts.map (start policy)),
          decoding.isFinished = true) →
        interleave schedule (scripts.map (start policy)) =
          (Script.decodeAll policy scripts).map finished) ∧
      (∀ schedule : List Nat,
        (∀ position tokens, scripts[position]? = some tokens →
          tokens.length < schedule.count position) →
        ∀ decoding ∈ interleave schedule (scripts.map (start policy)),
          decoding.isFinished = true) ∧
      ∀ calls : List Decoder.Call,
        ((Decoder.afterAll { policy } calls).decodeEach scripts).1 =
          Script.decodeAll policy scripts := by
  refine ⟨fun schedule h => interleave_start_eq_finished h,
    fun schedule h => isFinished_of_mem_interleave_start h, fun calls => ?_⟩
  rw [Decoder.decodeEach_fst, Decoder.policy_afterAll]

/-- A script with a battle, one whose battle lacks its operands, and one of no tokens. -/
def neighbouringScripts : List (List Token) :=
  [[.constant 5, .constant 1, .operation .battle 0], [.operation .battle 0, .constant 2], []]

/-- Turns enough for each of the scripts. -/
def sharedTurns : List Nat := [1, 0, 2, 0, 1, 0, 1, 0]

/-- Three scripts that share the turns in some order each come to what they decode to alone. -/
theorem scripts_decode_independently_sharedTurns :
    (∀ position tokens, neighbouringScripts[position]? = some tokens →
        tokens.length < sharedTurns.count position) ∧
      (∀ decoding ∈ interleave sharedTurns (neighbouringScripts.map (start .abort)),
        decoding.isFinished = true) ∧
      interleave sharedTurns (neighbouringScripts.map (start .abort)) =
        [finished (.ok { instructions := [.battle ⟨5, ⟨1⟩⟩] }),
          finished (.error ⟨0, .operation .battle 0, .stackUnderflow .battle 2 0⟩),
          finished (.ok {})] := by
  have hturns : ∀ position tokens, neighbouringScripts[position]? = some tokens →
      tokens.length < sharedTurns.count position := by
    rintro (_ | _ | _ | position) tokens h
    · obtain rfl := Option.some.inj h
      decide
    · obtain rfl := Option.some.inj h
      decide
    · obtain rfl := Option.some.inj h
      decide
    · cases h
  have hfinished := (scripts_decode_independently .abort neighbouringScripts).2.1 sharedTurns hturns
  refine ⟨hturns, hfinished, ?_⟩
  rw [(scripts_decode_independently .abort neighbouringScripts).1 sharedTurns hfinished]
  decide

end Decoding

end EventScript
