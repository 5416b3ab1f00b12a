import EventScript.Proofs.Script.Run
import Mathlib.Data.List.Induction

/-!
# What one token does

A token goes one of eleven ways, by what it is and by what waits on the stack. The
relation `Token.Step` lists them, each with what the token gives and the stack that it
leaves, and these are the steps of the decoder. A run is made of such steps, so it can
be followed from its first token to its last: what every step keeps of the tokens read
so far, the script so far and the stack, the whole run keeps.
-/

set_option autoImplicit false

namespace EventScript

/-- `Step token stack outcome next`: applied to `stack`, the token gives `outcome` and
leaves `next`. -/
inductive Token.Step :
    Token → OperandStack → Except DecodeError (Option Instruction) → OperandStack → Prop
  | constant (value : Int32) (stack : OperandStack) :
      Step (.constant value) stack (.ok none) (stack.push (.constant value))
  | memory (v : Variable) (stack : OperandStack) :
      Step (.memory v) stack (.ok none) (stack.push (.memory v))
  | unary {op : Calculation} (takes : op.isUnary = true) (operand : Expression)
      (rest : List Expression) :
      Step (.calculation op) ⟨operand :: rest⟩ (.ok none) ⟨.unary op operand :: rest⟩
  | binary {op : Calculation} (takes : op.isUnary = false) (left right : Expression)
      (rest : List Expression) :
      Step (.calculation op) ⟨right :: left :: rest⟩ (.ok none) ⟨.binary op left right :: rest⟩
  | calculationShort {op : Calculation} {stack : OperandStack} (short : stack.size < op.arity) :
      Step (.calculation op) stack
        (.error (.stackUnderflow .calculate op.arity stack.size)) stack
  | nop (parameter : Int32) (stack : OperandStack) :
      Step (.operation .nop parameter) stack (.ok (some .nop)) stack
  | battle (parameter encounter flags : Int32) (rest : List Expression) :
      Step (.operation .battle parameter) ⟨.constant flags :: .constant encounter :: rest⟩
        (.ok (some (.battle (.ofConstants encounter flags)))) ⟨rest⟩
  | battleShort (parameter : Int32) {stack : OperandStack} (short : stack.size < Battle.arity) :
      Step (.operation .battle parameter) stack
        (.error (.stackUnderflow .battle Battle.arity stack.size)) stack
  | flagsInvalid (parameter : Int32) {operand : Expression} (invalid : operand.constant? = none)
      (encounter : Expression) (rest : List Expression) :
      Step (.operation .battle parameter) ⟨operand :: encounter :: rest⟩
        (.error (.invalidOperand .battle operand)) ⟨encounter :: rest⟩
  | encounterInvalid (parameter flags : Int32) {operand : Expression}
      (invalid : operand.constant? = none) (rest : List Expression) :
      Step (.operation .battle parameter) ⟨.constant flags :: operand :: rest⟩
        (.error (.invalidOperand .battle operand)) ⟨rest⟩
  | unknown {opcode : Opcode} (unlisted : OpcodeTable.contains opcode = false)
      (parameter : Int32) (stack : OperandStack) :
      Step (.operation opcode parameter) stack (.error (.unknownOpcode opcode)) stack

/-! ## The steps are those of the decoder -/

namespace DecodeM

variable {α β : Type} {stack mid : OperandStack}

/-- What follows a stage that succeeds goes on from its value and stack. -/
theorem runOn_bind_of_ok {first : DecodeM α} {value : α}
    (h : first.runOn stack = (.ok value, mid)) (next : α → DecodeM β) :
    (first >>= next).runOn stack = (next value).runOn mid := by
  rw [runOn_bind, h]

/-- Nothing follows a stage that fails. -/
theorem runOn_bind_of_error {first : DecodeM α} {error : DecodeError}
    (h : first.runOn stack = (.error error, mid)) (next : α → DecodeM β) :
    (first >>= next).runOn stack = (.error error, mid) := by
  rw [runOn_bind, h]

/-- What is made of a result changes neither failures nor the stack. -/
theorem runOn_map (f : α → β) (step : DecodeM α) (stack : OperandStack) :
    (f <$> step).runOn stack = ((step.runOn stack).1.map f, (step.runOn stack).2) := by
  rw [map_eq_pure_bind, runOn_bind]
  rcases step.runOn stack with ⟨_ | _, _⟩ <;> rfl

/-- With enough operands the check of their number passes. -/
theorem runOn_require_of_le {needed : Nat} (opcode : Opcode) (enough : needed ≤ stack.size) :
    (require opcode needed).runOn stack = (.ok (), stack) := by
  rw [runOn_require, if_neg (Nat.not_lt.mpr enough)]

/-- With too few operands the check of their number fails and takes none. -/
theorem runOn_require_of_lt {needed : Nat} (opcode : Opcode) (short : stack.size < needed) :
    (require opcode needed).runOn stack =
      (.error (.stackUnderflow opcode needed stack.size), stack) := by
  rw [runOn_require, if_pos short]

/-- A constant on top is taken with its value. -/
theorem runOn_popConstant_constant (opcode : Opcode) (value : Int32) (rest : List Expression) :
    (popConstant opcode).runOn ⟨.constant value :: rest⟩ = (.ok value, ⟨rest⟩) := rfl

/-- An operand on top that is no constant is taken and reported. -/
theorem runOn_popConstant_of_eq_none (opcode : Opcode) {operand : Expression}
    (invalid : operand.constant? = none) (rest : List Expression) :
    (popConstant opcode).runOn ⟨operand :: rest⟩ =
      (.error (.invalidOperand opcode operand), ⟨rest⟩) := by
  cases operand with
  | constant value => cases invalid
  | memory v => rfl
  | unary op operand => rfl
  | binary op left right => rfl

end DecodeM

namespace Calculation

variable {op : Calculation} {stack : OperandStack}

/-- A calculation with too few operands fails and takes none. -/
theorem runOn_apply_of_size_lt (short : stack.size < op.arity) :
    op.apply.runOn stack = (.error (.stackUnderflow .calculate op.arity stack.size), stack) := by
  rw [apply, DecodeM.runOn_bind_of_error (DecodeM.runOn_require_of_lt _ short)]

/-- A unary calculation goes above the operand on top. -/
theorem runOn_apply_unary (takes : op.isUnary = true) (operand : Expression)
    (rest : List Expression) :
    op.apply.runOn ⟨operand :: rest⟩ = (.ok (), ⟨.unary op operand :: rest⟩) := by
  have enough : op.arity ≤ (⟨operand :: rest⟩ : OperandStack).size := by
    simp [OperandStack.size, arity, takes]
  rw [apply, DecodeM.runOn_bind_of_ok (DecodeM.runOn_require_of_le _ enough), if_pos takes]
  rfl

/-- A binary calculation joins the two operands on top, the lower one on its left. -/
theorem runOn_apply_binary (takes : op.isUnary = false) (left right : Expression)
    (rest : List Expression) :
    op.apply.runOn ⟨right :: left :: rest⟩ = (.ok (), ⟨.binary op left right :: rest⟩) := by
  have enough : op.arity ≤ (⟨right :: left :: rest⟩ : OperandStack).size := by
    simp [OperandStack.size, arity, takes]
  rw [apply, DecodeM.runOn_bind_of_ok (DecodeM.runOn_require_of_le _ enough),
    if_neg (Bool.eq_false_iff.mp takes)]
  rfl

end Calculation

namespace Battle

variable {operand : Expression}

/-- Two operands are enough for a battle. -/
theorem arity_le_size (first second : Expression) (rest : List Expression) :
    arity ≤ (⟨first :: second :: rest⟩ : OperandStack).size := by
  simp [OperandStack.size, arity]

/-- Operands of a battle are popped up to the first that is not a constant. -/
theorem runOn_decode_flagsInvalid (invalid : operand.constant? = none)
    (encounter : Expression) (rest : List Expression) :
    decode.runOn ⟨operand :: encounter :: rest⟩ =
      (.error (.invalidOperand .battle operand), ⟨encounter :: rest⟩) := by
  rw [decode, DecodeM.runOn_bind_of_ok (DecodeM.runOn_require_of_le _ (arity_le_size ..)),
    DecodeM.runOn_bind_of_error (DecodeM.runOn_popConstant_of_eq_none _ invalid _)]

/-- A battle whose encounter is no constant loses it and the flags above it. -/
theorem runOn_decode_encounterInvalid (flags : Int32) (invalid : operand.constant? = none)
    (rest : List Expression) :
    decode.runOn ⟨.constant flags :: operand :: rest⟩ =
      (.error (.invalidOperand .battle operand), ⟨rest⟩) := by
  rw [decode, DecodeM.runOn_bind_of_ok (DecodeM.runOn_require_of_le _ (arity_le_size ..)),
    DecodeM.runOn_bind_of_ok (DecodeM.runOn_popConstant_constant _ flags _),
    DecodeM.runOn_bind_of_error (DecodeM.runOn_popConstant_of_eq_none _ invalid _)]

end Battle

namespace OpcodeTable

/-- An opcode that the table does not have fails and takes nothing. -/
theorem runOn_decode_of_not_contains {opcode : Opcode} (unlisted : contains opcode = false)
    (parameter : Int32) (stack : OperandStack) :
    (decode opcode parameter).runOn stack = (.error (.unknownOpcode opcode), stack) := by
  have hnone : lookup? opcode = none := by simpa [contains] using unlisted
  rw [decode, hnone]
  rfl

/-- The table asks for the operands of a battle, as the battle does itself. -/
theorem runOn_decode_battle (parameter : Int32) (stack : OperandStack) :
    (decode .battle parameter).runOn stack =
      ((Battle.decode.runOn stack).1.map Instruction.battle, (Battle.decode.runOn stack).2) := by
  have hentry : decode .battle parameter =
      (do DecodeM.require .battle Battle.arity; Instruction.battle <$> Battle.decode) := rfl
  rw [hentry]
  rcases Nat.lt_or_ge stack.size Battle.arity with short | enough
  · rw [DecodeM.runOn_bind_of_error (DecodeM.runOn_require_of_lt _ short),
      Battle.runOn_decode_of_size_lt short]
    rfl
  · rw [DecodeM.runOn_bind_of_ok (DecodeM.runOn_require_of_le _ enough), DecodeM.runOn_map]

end OpcodeTable

namespace Token

variable {token : Token} {stack next : OperandStack}
  {outcome : Except DecodeError (Option Instruction)}

/-- The token of a calculation applies it and gives no instruction. -/
theorem runOn_decode_calculation (op : Calculation) (stack : OperandStack) :
    (calculation op).decode.runOn stack =
      ((op.apply.runOn stack).1.map fun _ => none, (op.apply.runOn stack).2) := by
  rw [decode, DecodeM.runOn_bind]
  rcases op.apply.runOn stack with ⟨_ | _, _⟩ <;> rfl

/-- The token of an operation decodes by the table and gives its instruction. -/
theorem runOn_decode_operation (opcode : Opcode) (parameter : Int32) (stack : OperandStack) :
    (operation opcode parameter).decode.runOn stack =
      (((OpcodeTable.decode opcode parameter).runOn stack).1.map some,
        ((OpcodeTable.decode opcode parameter).runOn stack).2) :=
  DecodeM.runOn_map some (OpcodeTable.decode opcode parameter) stack

/-- Every step is what decoding the token does. -/
theorem Step.runOn_decode (step : Step token stack outcome next) :
    token.decode.runOn stack = (outcome, next) := by
  cases step with
  | constant value => rfl
  | memory v => rfl
  | unary takes operand rest =>
    rw [runOn_decode_calculation, Calculation.runOn_apply_unary takes]
    rfl
  | binary takes left right rest =>
    rw [runOn_decode_calculation, Calculation.runOn_apply_binary takes]
    rfl
  | calculationShort short =>
    rw [runOn_decode_calculation, Calculation.runOn_apply_of_size_lt short]
    rfl
  | nop parameter => rfl
  | battle parameter encounter flags rest => rfl
  | battleShort parameter short =>
    rw [runOn_decode_operation, OpcodeTable.runOn_decode_battle,
      Battle.runOn_decode_of_size_lt short]
    rfl
  | flagsInvalid parameter invalid encounter rest =>
    rw [runOn_decode_operation, OpcodeTable.runOn_decode_battle,
      Battle.runOn_decode_flagsInvalid invalid]
    rfl
  | encounterInvalid parameter flags invalid rest =>
    rw [runOn_decode_operation, OpcodeTable.runOn_decode_battle,
      Battle.runOn_decode_encounterInvalid flags invalid]
    rfl
  | unknown unlisted parameter =>
    rw [runOn_decode_operation, OpcodeTable.runOn_decode_of_not_contains unlisted]
    rfl

/-- Every token takes a step from every stack. -/
theorem exists_step (token : Token) (stack : OperandStack) :
    ∃ outcome next, Step token stack outcome next := by
  obtain ⟨operands⟩ := stack
  cases token with
  | constant value => exact ⟨_, _, .constant value _⟩
  | memory v => exact ⟨_, _, .memory v _⟩
  | calculation op =>
    by_cases short : (⟨operands⟩ : OperandStack).size < op.arity
    · exact ⟨_, _, .calculationShort short⟩
    · cases takes : op.isUnary with
      | true =>
        cases operands with
        | nil => simp [OperandStack.size, Calculation.arity, takes] at short
        | cons operand rest => exact ⟨_, _, .unary takes operand rest⟩
      | false =>
        rcases operands with _ | ⟨right, _ | ⟨left, rest⟩⟩
        · simp [OperandStack.size, Calculation.arity, takes] at short
        · simp [OperandStack.size, Calculation.arity, takes] at short
        · exact ⟨_, _, .binary takes left right rest⟩
  | operation opcode parameter =>
    by_cases listed : OpcodeTable.contains opcode = true
    · rcases (OpcodeTable.contains_iff opcode).mp listed with rfl | rfl
      · exact ⟨_, _, .nop parameter _⟩
      · rcases operands with _ | ⟨flags, _ | ⟨encounter, rest⟩⟩
        · exact ⟨_, _, .battleShort parameter Nat.zero_lt_two⟩
        · exact ⟨_, _, .battleShort parameter Nat.one_lt_two⟩
        · cases hflags : flags.constant? with
          | none => exact ⟨_, _, .flagsInvalid parameter hflags encounter rest⟩
          | some value =>
            obtain rfl := Expression.constant?_eq_some_iff.mp hflags
            cases hencounter : encounter.constant? with
            | none => exact ⟨_, _, .encounterInvalid parameter value hencounter rest⟩
            | some number =>
              obtain rfl := Expression.constant?_eq_some_iff.mp hencounter
              exact ⟨_, _, .battle parameter number value rest⟩
    · exact ⟨_, _, .unknown (Bool.eq_false_iff.mpr listed) parameter _⟩

/-- The steps of the decoder are those of the list. -/
theorem step_iff :
    Step token stack outcome next ↔ token.decode.runOn stack = (outcome, next) := by
  constructor
  · exact Step.runOn_decode
  · intro h
    obtain ⟨outcome', next', step⟩ := exists_step token stack
    rw [step.runOn_decode] at h
    cases h
    exact step

/-- A step takes at most two operands off the top and places at most one there, which is
a constant only if the token pushes it. What is below stays. -/
theorem Step.frame (step : Step token stack outcome next) :
    ∃ taken rest, stack = ⟨taken ++ rest⟩ ∧ taken.length ≤ 2 ∧
      (next = ⟨rest⟩ ∨ ∃ operand, next = ⟨operand :: rest⟩ ∧
        ∀ value, operand = .constant value → token = .constant value) := by
  cases step with
  | constant value =>
    refine ⟨[], _, rfl, by simp, .inr ⟨.constant value, rfl, ?_⟩⟩
    rintro _ ⟨⟩
    rfl
  | memory v => exact ⟨[], _, rfl, by simp, .inr ⟨.memory v, rfl, nofun⟩⟩
  | unary takes operand rest => exact ⟨[operand], rest, rfl, by simp, .inr ⟨_, rfl, nofun⟩⟩
  | binary takes left right rest => exact ⟨[right, left], rest, rfl, by simp, .inr ⟨_, rfl, nofun⟩⟩
  | battle parameter encounter flags rest => exact ⟨[_, _], rest, rfl, by simp, .inl rfl⟩
  | flagsInvalid parameter invalid encounter rest => exact ⟨[_], _, rfl, by simp, .inl rfl⟩
  | encounterInvalid parameter flags invalid rest => exact ⟨[_, _], rest, rfl, by simp, .inl rfl⟩
  | calculationShort short => exact ⟨[], _, rfl, by simp, .inl rfl⟩
  | nop parameter => exact ⟨[], _, rfl, by simp, .inl rfl⟩
  | battleShort parameter short => exact ⟨[], _, rfl, by simp, .inl rfl⟩
  | unknown unlisted parameter => exact ⟨[], _, rfl, by simp, .inl rfl⟩

end Token

/-! ## Runs grow token by token -/

/-- The battle that an instruction begins, if it begins one. -/
def Instruction.battle? : Instruction → Option Battle
  | nop => none
  | battle b => some b

/-- A policy passes over every error, and over anything that is none. -/
def ErrorPolicy.Passes (policy : ErrorPolicy)
    (outcome : Except DecodeError (Option Instruction)) : Prop :=
  ∀ cause, outcome = .error cause → policy.stopsAt cause = false

namespace Script

/-- The battles of a script, in order. -/
def battles (script : Script) : List Battle :=
  script.instructions.filterMap Instruction.battle?

/-- The battles of two scripts follow one another. -/
@[simp]
theorem battles_append (first second : Script) :
    (first.append second).battles = first.battles ++ second.battles := by
  simp [battles, append]

/-- The script of one token: `outcome` is what the token at position `index` gives and
`next` is the stack that it leaves. -/
def single (index : Nat) (next : OperandStack) :
    Except DecodeError (Option Instruction) → Script
  | .ok i => { instructions := i.toList, leftover := next.size }
  | .error cause => { diagnostics := [{ index, error := cause }], leftover := next.size }

variable {policy : ErrorPolicy} {index : Nat} {stack next after : OperandStack}
  {token : Token} {tokens : List Token} {script : Script}
  {outcome : Except DecodeError (Option Instruction)}

/-- A run of one token is a step that the policy lets pass. -/
theorem run_singleton_iff :
    Run policy index stack [token] script after ↔
      ∃ outcome, token.Step stack outcome after ∧ policy.Passes outcome ∧
        script = single index after outcome := by
  constructor
  · intro run
    cases run with
    | operand step rest =>
      cases rest
      exact ⟨.ok none, Token.step_iff.mpr step, nofun, rfl⟩
    | @instruction _ _ _ _ _ _ _ i step rest =>
      cases rest
      exact ⟨.ok (some i), Token.step_iff.mpr step, nofun, rfl⟩
    | @skipped _ _ _ _ _ _ _ cause step skip rest =>
      cases rest
      refine ⟨.error cause, Token.step_iff.mpr step, ?_, rfl⟩
      rintro _ ⟨⟩
      exact skip
  · rintro ⟨cause | (_ | i), step, passes, rfl⟩
    · exact .skipped step.runOn_decode (passes cause rfl) (.nil _ _)
    · exact .operand step.runOn_decode (.nil _ _)
    · exact .instruction step.runOn_decode (.nil _ _)

/-- A run goes on by a step that the policy lets pass, at the position behind its tokens. -/
theorem Run.concat (run : Run policy index stack tokens script next)
    (step : token.Step next outcome after) (passes : policy.Passes outcome) :
    Run policy index stack (tokens ++ [token])
      (script.append (single (index + tokens.length) after outcome)) after :=
  run.append (run_singleton_iff.mpr ⟨outcome, step, passes, rfl⟩)

/-- What is true of no tokens and stays true when a run goes on by one step is true of
every run. -/
@[elab_as_elim]
theorem Run.induction_on_last {motive : List Token → Script → OperandStack → Prop}
    (nil : motive [] {} .empty)
    (concat : ∀ {before : List Token} {head : Script} {stack : OperandStack} {token : Token}
      {outcome : Except DecodeError (Option Instruction)} {next : OperandStack},
      Run policy 0 .empty before head stack → motive before head stack →
      token.Step stack outcome next → policy.Passes outcome →
      motive (before ++ [token]) (head.append (single before.length next outcome)) next)
    (run : Run policy 0 .empty tokens script after) : motive tokens script after := by
  -- a run is built from its first token on, but what a token meets is at the end
  induction tokens using List.reverseRecOn generalizing script after with
  | nil =>
    cases run
    exact nil
  | append_singleton before token ih =>
    obtain ⟨head, stack, last, runBefore, runLast, rfl⟩ := run.of_append
    obtain ⟨outcome, step, passes, rfl⟩ := run_singleton_iff.mp runLast
    rw [Nat.zero_add]
    exact concat runBefore (ih runBefore) step passes

end Script

end EventScript
