import EventScript.Proofs.Script.Step

/-!
# Decoders between calls

A decoder is fed tokens one by one and decodes whole scripts, in any order, and its
stack carries over what a call left there, a failed one as well. What every step keeps
of a stack is therefore true of every state that calls lead to.
-/

set_option autoImplicit false

namespace EventScript

/-- Decoding keeps of the stack what every step keeps, also where it fails. -/
theorem Script.decodeFrom_keeps {motive : OperandStack → Prop}
    (keeps : ∀ {token : Token} {stack : OperandStack}
      {outcome : Except DecodeError (Option Instruction)} {next : OperandStack},
      token.Step stack outcome next → motive stack → motive next)
    (policy : ErrorPolicy) (index : Nat) {stack : OperandStack} (start : motive stack)
    (tokens : List Token) : motive (decodeFrom policy index stack tokens).2 := by
  induction tokens generalizing index stack with
  | nil => exact start
  | cons token rest ih =>
    obtain ⟨outcome, next, step⟩ := token.exists_step stack
    have hnext : motive next := keeps step start
    rcases outcome with cause | (_ | i)
    · cases hstop : policy.stopsAt cause with
      | true =>
        rw [decodeFrom_cons_of_stop step.runOn_decode hstop]
        exact hnext
      | false =>
        rw [decodeFrom_cons_of_skip step.runOn_decode hstop]
        exact ih (index + 1) hnext
    · rw [decodeFrom_cons_of_none step.runOn_decode]
      exact ih (index + 1) hnext
    · rw [decodeFrom_cons_of_some step.runOn_decode]
      exact ih (index + 1) hnext

namespace Decoder

variable {decoder other : Decoder} {token : Token} {stack : OperandStack}
  {outcome : Except DecodeError (Option Instruction)}

/-- To feed a token is to take a step on the stack. -/
theorem feed_of_step (step : token.Step decoder.stack outcome stack) :
    decoder.feed token = (outcome, { decoder with stack }) := by
  rw [feed, step.runOn_decode]

/-- To be fed a token is to take its step. -/
theorem feed_eq_iff : decoder.feed token = (outcome, other) ↔
    token.Step decoder.stack outcome other.stack ∧ other.policy = decoder.policy := by
  constructor
  · intro h
    obtain ⟨outcome', stack, step⟩ := token.exists_step decoder.stack
    rw [feed_of_step step] at h
    cases h
    exact ⟨step, rfl⟩
  · rintro ⟨step, hpolicy⟩
    rw [feed_of_step step, ← hpolicy]

/-- Feeds tokens one after another, also after one that failed, and gives what each of
them gave. -/
def feedAll (decoder : Decoder) :
    List Token → List (Except DecodeError (Option Instruction)) × Decoder
  | [] => ([], decoder)
  | token :: rest =>
    let (outcome, next) := decoder.feed token
    let (outcomes, last) := next.feedAll rest
    (outcome :: outcomes, last)

/-- To feed tokens is to take the step of the first and to feed the others. -/
theorem feedAll_cons_of_step (step : token.Step decoder.stack outcome stack)
    (rest : List Token) :
    decoder.feedAll (token :: rest) =
      (outcome :: (feedAll { decoder with stack } rest).1,
        (feedAll { decoder with stack } rest).2) := by
  rw [feedAll, feed_of_step step]

/-- To feed tokens and then others is to feed all of them. -/
theorem feedAll_append (decoder : Decoder) (first second : List Token) :
    decoder.feedAll (first ++ second) =
      ((decoder.feedAll first).1 ++ ((decoder.feedAll first).2.feedAll second).1,
        ((decoder.feedAll first).2.feedAll second).2) := by
  induction first generalizing decoder with
  | nil => rfl
  | cons token rest ih => simp only [List.cons_append, feedAll, ih]

/-- Decodes scripts one after another with the same decoder. -/
def decodeEach (decoder : Decoder) :
    List (List Token) → List (Except ScriptError Script) × Decoder
  | [] => ([], decoder)
  | tokens :: rest =>
    let (result, next) := decoder.decode tokens
    let (results, last) := next.decodeEach rest
    (result :: results, last)

/-- What waits in a decoder, at the beginning or after one of the scripts, makes no difference
to any of them. -/
theorem decodeEach_fst (decoder : Decoder) (scripts : List (List Token)) :
    (decoder.decodeEach scripts).1 = Script.decodeAll decoder.policy scripts := by
  induction scripts generalizing decoder with
  | nil => rfl
  | cons tokens rest ih =>
    have hfirst : (decoder.decodeEach (tokens :: rest)).1 =
        (decoder.decode tokens).1 :: ((decoder.decode tokens).2.decodeEach rest).1 := rfl
    have hpolicy : (decoder.decode tokens).2.policy = decoder.policy := rfl
    rw [hfirst, ih, hpolicy, decode_fst, Script.decodeAll, Script.decodeAll, List.map_cons]

/-! ## Histories -/

/-- A call of a decoder. -/
inductive Call where
  | feed (token : Token)
  | decode (tokens : List Token)

/-- The decoder after a call, whatever the call gives. -/
def after (decoder : Decoder) : Call → Decoder
  | .feed token => (decoder.feed token).2
  | .decode tokens => (decoder.decode tokens).2

/-- The decoder after calls, one after another. -/
def afterAll (decoder : Decoder) (calls : List Call) : Decoder := calls.foldl after decoder

/-- A call leaves the policy as it is. -/
theorem policy_after (decoder : Decoder) (call : Call) :
    (decoder.after call).policy = decoder.policy := by
  cases call <;> rfl

/-- No call changes the policy. -/
theorem policy_afterAll (decoder : Decoder) (calls : List Call) :
    (decoder.afterAll calls).policy = decoder.policy := by
  induction calls generalizing decoder with
  | nil => rfl
  | cons call calls ih => exact (ih (decoder.after call)).trans (policy_after decoder call)

/-- The states of a decoder that calls lead to, whatever the calls give. -/
inductive Reachable : Decoder → Prop
  | start (policy : ErrorPolicy) : Reachable { policy }
  | feed {decoder : Decoder} (reachable : Reachable decoder) (token : Token) :
      Reachable (decoder.feed token).2
  | decode {decoder : Decoder} (reachable : Reachable decoder) (tokens : List Token) :
      Reachable (decoder.decode tokens).2

/-- What is true of the empty stack and kept by every step is true of the stack of every
state that calls lead to. -/
theorem Reachable.keeps {motive : OperandStack → Prop} (empty : motive .empty)
    (keeps : ∀ {token : Token} {stack : OperandStack}
      {outcome : Except DecodeError (Option Instruction)} {next : OperandStack},
      token.Step stack outcome next → motive stack → motive next)
    (reachable : Reachable decoder) : motive decoder.stack := by
  induction reachable with
  | start policy => exact empty
  | @feed decoder reachable token ih =>
    obtain ⟨outcome, stack, step⟩ := token.exists_step decoder.stack
    rw [feed_of_step step]
    exact keeps step ih
  | @decode decoder reachable tokens ih =>
    exact Script.decodeFrom_keeps keeps decoder.policy 0 empty tokens

end Decoder

end EventScript
