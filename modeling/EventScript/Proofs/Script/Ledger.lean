import EventScript.Proofs.Script.Policy
import EventScript.Proofs.Script.Step
import Mathlib.Data.List.Induction

/-!
# The ledger of a decoded script

Every token of a decoded script is accounted for. A token either failed, and then one of
the failures is at its position, or it did what it is there for: an operation gave its
instruction, a push placed an operand, a calculation on two operands left one. Counted
over the script, the operands that were pushed are those that are left, those that
calculations and battles took, and those that battles lost for which an operand was no
constant: such a battle loses that operand, and with it the flags if it is the
encounter.
-/

set_option autoImplicit false

namespace EventScript

/-! ## Items at chosen positions -/

section Positions

variable {α : Type} {p q : Nat → Bool} {items : List α}

/-- The items of a list at the positions that satisfy `p`, in order. -/
def itemsAt (p : Nat → Bool) (items : List α) : List α :=
  (items.zipIdx.filter fun entry => p entry.2).map Prod.fst

/-- An item that is put behind the others is picked by its own position and changes nothing for
those. -/
theorem itemsAt_concat (p : Nat → Bool) (items : List α) (last : α) :
    itemsAt p (items ++ [last]) = itemsAt p items ++ (if p items.length then [last] else []) := by
  rw [itemsAt, List.zipIdx_append, List.filter_append, List.map_append, Nat.zero_add,
    List.zipIdx_singleton]
  cases h : p items.length with
  | true => simp [itemsAt, h]
  | false => simp [itemsAt, h]

/-- Which items are picked depends on the positions in the list alone. -/
theorem itemsAt_congr (h : ∀ i < items.length, p i = q i) : itemsAt p items = itemsAt q items := by
  have hfilter : items.zipIdx.filter (fun entry => p entry.2) =
      items.zipIdx.filter fun entry => q entry.2 := by
    apply List.filter_congr
    intro entry hmem
    exact h entry.2 (by simpa using List.snd_lt_of_mem_zipIdx hmem)
  rw [itemsAt, hfilter, itemsAt]

/-- An item is either picked or at a position that counts for those that are not. -/
theorem length_itemsAt_not (p : Nat → Bool) (items : List α) :
    (itemsAt (fun i => !p i) items).length + (List.range items.length).countP p = items.length := by
  induction items using List.reverseRecOn with
  | nil => rfl
  | append_singleton items last ih =>
    rw [itemsAt_concat, List.length_append, List.length_append, List.length_singleton,
      List.range_succ, List.countP_append]
    cases h : p items.length with
    | true => simp [h]; omega
    | false => simp [h]; omega

end Positions

/-! ## What is counted -/

namespace Token

/-- Whether a token pushes an operand. -/
def isPush : Token → Bool
  | constant _ | memory _ => true
  | _ => false

/-- Whether a token is a calculation on two operands. -/
def isBinary : Token → Bool
  | calculation op => !op.isUnary
  | _ => false

/-- The opcode of a token that decodes an instruction. -/
def opcode? : Token → Option Opcode
  | operation opcode _ => some opcode
  | _ => none

end Token

/-- Whether an operand was no constant. -/
def DecodeError.isInvalidOperand : DecodeError → Bool
  | invalidOperand _ _ => true
  | _ => false

namespace Script

/-- The failures of a script for which an operand was no constant. -/
def invalidOperands (script : Script) : Nat :=
  script.diagnostics.countP (·.error.isInvalidOperand)

/-- The tokens of a script at whose positions there is no failure, in order. -/
def accepted (script : Script) (tokens : List Token) : List Token :=
  (tokens.zipIdx.filter fun entry => script.diagnostics.all (·.index != entry.2)).map Prod.fst

/-- If nothing failed every token was accepted. -/
theorem accepted_of_diagnostics_eq_nil {script : Script} (h : script.diagnostics = [])
    (tokens : List Token) : script.accepted tokens = tokens := by
  have hkeep : tokens.zipIdx.filter (fun entry => script.diagnostics.all (·.index != entry.2)) =
      tokens.zipIdx := by
    simp [h]
  rw [accepted, hkeep, List.zipIdx_map_fst]

end Script

/-! ## One token -/

namespace Token.Step

variable {token : Token} {stack next : OperandStack}
  {outcome : Except DecodeError (Option Instruction)}

/-- A token that is decoded gives an instruction of its own opcode, or none if it has no opcode. -/
theorem opcode?_eq {i : Option Instruction} (step : token.Step stack (.ok i) next) :
    token.opcode? = i.map Instruction.opcode := by
  cases step <;> rfl

/-- Only calculations and battles fail in a way that a policy passes over. -/
theorem calculation_or_battle {cause : DecodeError} {policy : ErrorPolicy}
    (step : token.Step stack (.error cause) next) (passed : policy.stopsAt cause = false) :
    (∃ op, token = .calculation op) ∨ ∃ parameter, token = .operation .battle parameter := by
  cases step with
  | calculationShort short => exact .inl ⟨_, rfl⟩
  | battleShort parameter short => exact .inr ⟨parameter, rfl⟩
  | flagsInvalid parameter invalid encounter rest => exact .inr ⟨parameter, rfl⟩
  | encounterInvalid parameter flags invalid rest => exact .inr ⟨parameter, rfl⟩
  | unknown unlisted parameter =>
    cases policy <;> cases passed

/-- What a step takes from the stack and places there, with the operands that a battle
loses. -/
theorem balance (step : token.Step stack outcome next) (index : Nat) :
    ∃ lost, (Script.single index next outcome).invalidOperands ≤ lost ∧
      lost ≤ 2 * (Script.single index next outcome).invalidOperands ∧
      [token].countP isPush + stack.size =
        next.size + (if outcome.isOk then [token] else []).countP isBinary +
          2 * (Script.single index next outcome).battles.length + lost := by
  cases step with
  | constant value => exact ⟨0, Nat.le_refl _, Nat.le_refl _, Nat.add_comm ..⟩
  | memory v => exact ⟨0, Nat.le_refl _, Nat.le_refl _, Nat.add_comm ..⟩
  | unary takes operand rest =>
    refine ⟨0, Nat.le_refl _, Nat.le_refl _, ?_⟩
    simp [isPush, isBinary, takes, OperandStack.size, Except.isOk, Except.toBool, Script.battles,
      Script.single]
  | binary takes left right rest =>
    refine ⟨0, Nat.le_refl _, Nat.le_refl _, ?_⟩
    simp [isPush, isBinary, takes, OperandStack.size, Except.isOk, Except.toBool, Script.battles,
      Script.single]
  | calculationShort short => exact ⟨0, Nat.le_refl _, Nat.le_refl _, Nat.add_comm ..⟩
  | nop parameter => exact ⟨0, Nat.le_refl _, Nat.le_refl _, Nat.add_comm ..⟩
  | battle parameter encounter flags rest => exact ⟨0, Nat.le_refl _, Nat.le_refl _, Nat.add_comm ..⟩
  | battleShort parameter short => exact ⟨0, Nat.le_refl _, Nat.le_refl _, Nat.add_comm ..⟩
  | flagsInvalid parameter invalid encounter rest =>
    -- the encounter is not looked at any more and waits on
    exact ⟨1, Nat.le_refl 1, Nat.le_succ 1, Nat.add_comm ..⟩
  | encounterInvalid parameter flags invalid rest =>
    -- the flags were a constant and are gone as well
    exact ⟨2, Nat.le_succ 1, Nat.le_refl 2, Nat.add_comm ..⟩
  | unknown unlisted parameter => exact ⟨0, Nat.le_refl _, Nat.le_refl _, Nat.add_comm ..⟩

end Token.Step

namespace Script

variable {policy : ErrorPolicy} {before tokens : List Token} {head script : Script}
  {stack after : OperandStack}

/-- The operands that were no constants are counted part by part. -/
theorem invalidOperands_append (first second : Script) :
    (first.append second).invalidOperands = first.invalidOperands + second.invalidOperands := by
  simp [invalidOperands, append]

/-! ## Whole scripts -/

/-- The accepted tokens are those at the positions without a failure. -/
theorem accepted_eq_itemsAt (script : Script) (tokens : List Token) :
    script.accepted tokens = itemsAt (fun i => script.diagnostics.all (·.index != i)) tokens := rfl

/-- A token that a run goes on by is accepted unless it fails, and the others as before. -/
theorem Run.accepted_concat (run : Run policy 0 .empty before head stack) (token : Token)
    (next : OperandStack) (outcome : Except DecodeError (Option Instruction)) :
    (head.append (single before.length next outcome)).accepted (before ++ [token]) =
      head.accepted before ++ (if outcome.isOk then [token] else []) := by
  -- the new failure, if there is one, is behind the tokens before and so drops none of them
  have hbefore : ∀ i < before.length,
      (head.append (single before.length next outcome)).diagnostics.all (·.index != i) =
        head.diagnostics.all (·.index != i) := by
    intro i hlt
    have hne : before.length ≠ i := by omega
    cases outcome with
    | ok i => simp [Script.append, single]
    | error cause => simp [Script.append, single, hne]
  have hlast : (head.append (single before.length next outcome)).diagnostics.all
      (·.index != before.length) = outcome.isOk := by
    have hhead : head.diagnostics.all (·.index != before.length) = true := by
      simp only [List.all_eq_true, bne_iff_ne]
      intro diagnostic hmem
      have hindex := (run.index_of_mem_diagnostics hmem).2
      omega
    cases outcome with
    | ok i => simp [Script.append, single, hhead, Except.isOk, Except.toBool]
    | error cause => simp [Script.append, single, Except.isOk, Except.toBool]
  rw [accepted_eq_itemsAt, itemsAt_concat, hlast, itemsAt_congr hbefore, accepted_eq_itemsAt]

/-- The positions of the failures increase. -/
theorem Run.pairwise_index (run : Run policy 0 .empty tokens script after) :
    script.diagnostics.Pairwise fun first second => first.index < second.index := by
  refine run.induction_on_last .nil ?_
  intro before head stack token outcome next run ih step passes
  refine List.pairwise_append.mpr ⟨ih, ?_, ?_⟩
  · cases outcome with
    | ok i => exact .nil
    | error cause => exact List.pairwise_singleton ..
  · intro first hfirst second hsecond
    have hindex := (run.index_of_mem_diagnostics hfirst).2
    cases outcome with
    | ok i => cases hsecond
    | error cause =>
      obtain rfl := List.mem_singleton.mp hsecond
      dsimp only
      omega

/-- A failure is at a calculation or a battle. -/
theorem Run.token_of_mem_diagnostics (run : Run policy 0 .empty tokens script after) :
    ∀ diagnostic ∈ script.diagnostics,
      (∃ op, tokens[diagnostic.index]? = some (.calculation op)) ∨
        ∃ parameter, tokens[diagnostic.index]? = some (.operation .battle parameter) := by
  refine run.induction_on_last (by simp) ?_
  intro before head stack token outcome next run ih step passes diagnostic hmem
  rcases List.mem_append.mp hmem with hmem | hmem
  · have hindex := (run.index_of_mem_diagnostics hmem).2
    rw [List.getElem?_append_left (by omega)]
    exact ih diagnostic hmem
  · cases outcome with
    | ok i => cases hmem
    | error cause =>
      obtain rfl := List.mem_singleton.mp hmem
      rw [List.getElem?_concat_length]
      simpa using step.calculation_or_battle (passes cause rfl)

/-- The instructions are those of the operations that did not fail. -/
theorem Run.map_opcode_eq (run : Run policy 0 .empty tokens script after) :
    script.instructions.map Instruction.opcode =
      (script.accepted tokens).filterMap Token.opcode? := by
  refine run.induction_on_last rfl ?_
  intro before head stack token outcome next run ih step passes
  rw [run.accepted_concat, List.filterMap_append, ← ih]
  cases outcome with
  | ok i => cases i <;> simp [Script.append, single, Except.isOk, Except.toBool, step.opcode?_eq]
  | error cause => simp [Script.append, single, Except.isOk, Except.toBool]

/-- The operands that were pushed are those that are left, taken or lost. -/
theorem Run.balance (run : Run policy 0 .empty tokens script after) :
    ∃ lost, script.invalidOperands ≤ lost ∧ lost ≤ 2 * script.invalidOperands ∧
      tokens.countP Token.isPush =
        after.size + (script.accepted tokens).countP Token.isBinary +
          2 * script.battles.length + lost := by
  refine run.induction_on_last ⟨0, Nat.le_refl _, Nat.le_refl _, rfl⟩ ?_
  intro before head stack token outcome next run ⟨lost, hlow, hhigh, hcount⟩ step passes
  obtain ⟨more, hlow', hhigh', hcount'⟩ := step.balance before.length
  refine ⟨lost + more, ?_, ?_, ?_⟩
  · rw [invalidOperands_append]
    omega
  · rw [invalidOperands_append]
    omega
  · rw [run.accepted_concat, List.countP_append, List.countP_append, battles_append,
      List.length_append]
    omega

/-! ## Decoded scripts -/

/-- There are as many battles as instructions with their opcode. -/
theorem length_battles (script : Script) :
    script.battles.length = (script.instructions.map Instruction.opcode).count .battle := by
  have hopcode : ∀ i : Instruction, i.battle?.isSome = (i.opcode == .battle) := by
    intro i
    cases i with
    | nop => rfl
    | battle b => rfl
  rw [battles, List.length_filterMap_eq_countP, List.count, List.countP_map]
  apply List.countP_congr
  intro i _
  rw [hopcode i, Function.comp_apply]

/-- Where nothing failed, no operand was lost and every operation gave its instruction. -/
theorem Run.balance_of_diagnostics_eq_nil (run : Run policy 0 .empty tokens script after)
    (hnone : script.diagnostics = []) :
    after.size + tokens.countP Token.isBinary + 2 * (tokens.filterMap Token.opcode?).count .battle =
        tokens.countP Token.isPush ∧
      script.instructions.length = (tokens.filterMap Token.opcode?).length := by
  have haccepted : script.accepted tokens = tokens := accepted_of_diagnostics_eq_nil hnone tokens
  have hopcodes := run.map_opcode_eq
  rw [haccepted] at hopcodes
  have hinvalid : script.invalidOperands = 0 := by simp [invalidOperands, hnone]
  obtain ⟨lost, -, hhigh, hcount⟩ := run.balance
  rw [haccepted, length_battles, hopcodes] at hcount
  constructor
  · omega
  · rw [← hopcodes, List.length_map]

/-- The ledger of a decoded script. The failures are in the order of their positions,
each at a calculation or a battle, and the instructions are those of the operations that
did not fail. The operands that were pushed are those that are left, one for each
calculation on two operands that did not fail, two for each battle, and one or two for
each failure for which an operand was no constant. Under the strict policy nothing
fails. -/
theorem decode_ledger (h : decode policy tokens = .ok script) :
    (script.diagnostics.Pairwise fun first second => first.index < second.index) ∧
    (∀ diagnostic ∈ script.diagnostics,
      (∃ op, tokens[diagnostic.index]? = some (.calculation op)) ∨
        ∃ parameter, tokens[diagnostic.index]? = some (.operation .battle parameter)) ∧
    script.instructions.map Instruction.opcode =
      (script.accepted tokens).filterMap Token.opcode? ∧
    (∃ lost, script.invalidOperands ≤ lost ∧ lost ≤ 2 * script.invalidOperands ∧
      tokens.countP Token.isPush =
        script.leftover + (script.accepted tokens).countP Token.isBinary +
          2 * script.battles.length + lost) ∧
    (policy = .abort →
      script.leftover + tokens.countP Token.isBinary +
          2 * (tokens.filterMap Token.opcode?).count .battle = tokens.countP Token.isPush ∧
        script.instructions.length = (tokens.filterMap Token.opcode?).length) := by
  obtain ⟨after, run⟩ := decode_eq_ok_iff.mp h
  rw [run.leftover_eq]
  refine ⟨run.pairwise_index, run.token_of_mem_diagnostics, run.map_opcode_eq, run.balance, ?_⟩
  rintro rfl
  exact run.balance_of_diagnostics_eq_nil (run_abort_iff.mp run).2

/-- The first battle loses the flags and the encounter and the second only the flags, a
calculation fails, and then a battle takes what is left. -/
def lossyBattles : List Token :=
  [.memory ⟨.byte, 1⟩, .constant 5, .operation .battle 0, .calculation .add, .constant 9,
    .constant 2, .constant 3, .calculation .add, .operation .battle 0, .operation .nop 0,
    .constant 1, .operation .battle 0]

/-- In a script with losses the operands that were pushed are those that are left, taken and lost.
-/
theorem decode_ledger_lossyBattles :
    decode .skip lossyBattles = .ok
      { instructions := [.nop, .battle ⟨9, ⟨1⟩⟩]
        diagnostics := [⟨2, .invalidOperand .battle (.memory ⟨.byte, 1⟩)⟩,
          ⟨3, .stackUnderflow .calculate 2 0⟩,
          ⟨8, .invalidOperand .battle (.binary .add (.constant 2) (.constant 3))⟩] } ∧
    (∃ lost, 2 ≤ lost ∧ lost ≤ 4 ∧ lossyBattles.countP Token.isPush = 0 + 1 + 2 * 1 + lost) ∧
    decode .abort (.constant 9 :: .constant 6 :: lossyBattles.drop 9) = .ok
      { instructions := [.nop, .battle ⟨6, ⟨1⟩⟩], leftover := 1 } ∧
    1 + 0 + 2 * 1 = (Token.constant 9 :: .constant 6 :: lossyBattles.drop 9).countP Token.isPush := by
  have hskip : decode .skip lossyBattles = .ok
      { instructions := [.nop, .battle ⟨9, ⟨1⟩⟩]
        diagnostics := [⟨2, .invalidOperand .battle (.memory ⟨.byte, 1⟩)⟩,
          ⟨3, .stackUnderflow .calculate 2 0⟩,
          ⟨8, .invalidOperand .battle (.binary .add (.constant 2) (.constant 3))⟩] } := by
    decide
  have habort : decode .abort (.constant 9 :: .constant 6 :: lossyBattles.drop 9) = .ok
      { instructions := [.nop, .battle ⟨6, ⟨1⟩⟩], leftover := 1 } := by
    decide
  obtain ⟨-, -, -, hlost, -⟩ := decode_ledger hskip
  obtain ⟨-, -, -, -, hstrict⟩ := decode_ledger habort
  exact ⟨hskip, hlost, habort, (hstrict rfl).1⟩

end Script

end EventScript
