import EventScript.Proofs.Preliminaries
import EventScript.Proofs.Script.Step
import Mathlib.Data.List.Forall2

/-!
# The shape of a script

Decoding looks at the sort of a token, at how many operands a calculation takes and at
opcodes. It never looks at the value of a constant, at a variable or at the parameter of
an opcode, and a constant comes back only in the number of a battle. Two scripts of one
shape are therefore decoded in step: after equally many tokens their stacks hold the
same sorts of operands, with constants related as those of the tokens are.
-/

set_option autoImplicit false

namespace EventScript

/-! ## What is alike -/

/-- Both fail, with errors that `E` relates, or both have results, which `A` relates. -/
inductive SameOutcome {ε α : Type} (E : ε → ε → Prop) (A : α → α → Prop) :
    Except ε α → Except ε α → Prop
  | error {failure other : ε} (related : E failure other) :
      SameOutcome E A (.error failure) (.error other)
  | ok {result other : α} (related : A result other) : SameOutcome E A (.ok result) (.ok other)

namespace SameOutcome

variable {ε α β : Type} {E : ε → ε → Prop} {A : α → α → Prop} {outcome other : Except ε α}

/-- Outcomes stay alike when something is made of the results that keeps these alike. -/
theorem map {B : β → β → Prop} {f g : α → β} (same : SameOutcome E A outcome other)
    (h : ∀ result result', A result result' → B (f result) (g result')) :
    SameOutcome E B (outcome.map f) (other.map g) := by
  cases same with
  | error related => exact .error related
  | ok related => exact .ok (h _ _ related)

/-- Outcomes that are alike in one way are so in every weaker way. -/
theorem imp {B : α → α → Prop} (same : SameOutcome E A outcome other)
    (h : ∀ result result', A result result' → B result result') :
    SameOutcome E B outcome other := by
  cases same with
  | error related => exact .error related
  | ok related => exact .ok (h _ _ related)

end SameOutcome

/-- Operands of one sort; constants are related by `R`. -/
inductive Expression.Alike (R : Int32 → Int32 → Prop) : Expression → Expression → Prop
  | constant {value other : Int32} (related : R value other) :
      Alike R (.constant value) (.constant other)
  | memory (v other : Variable) : Alike R (.memory v) (.memory other)
  | computed {operand other : Expression} (h : operand.kind = .computed)
      (h' : other.kind = .computed) : Alike R operand other

/-- Tokens of one sort, with the same opcode if they are operations, and for as many
operands if they are calculations; constants are related by `R`. -/
inductive Token.Alike (R : Int32 → Int32 → Prop) : Token → Token → Prop
  | constant {value other : Int32} (related : R value other) :
      Alike R (.constant value) (.constant other)
  | memory (v other : Variable) : Alike R (.memory v) (.memory other)
  | calculation {op other : Calculation} (arity : op.arity = other.arity) :
      Alike R (.calculation op) (.calculation other)
  | operation (opcode : Opcode) (parameter other : Int32) :
      Alike R (.operation opcode parameter) (.operation opcode other)

/-- Errors that are equal but for the operand that was no constant, of which only the sort
is the same. -/
inductive DecodeError.Alike : DecodeError → DecodeError → Prop
  | stackUnderflow (opcode : Opcode) (needed available : Nat) :
      Alike (.stackUnderflow opcode needed available) (.stackUnderflow opcode needed available)
  | invalidOperand (opcode : Opcode) {operand other : Expression}
      (kind : operand.kind = other.kind) :
      Alike (.invalidOperand opcode operand) (.invalidOperand opcode other)
  | unknownOpcode (opcode : Opcode) : Alike (.unknownOpcode opcode) (.unknownOpcode opcode)

/-- Instructions with the same opcode; battles have the numbers of constants related by
`R`. -/
inductive Instruction.Alike (R : Int32 → Int32 → Prop) : Instruction → Instruction → Prop
  | nop : Alike R .nop .nop
  | battle {encounter encounter' flags flags' : Int32} (encounters : R encounter encounter')
      (flagSets : R flags flags') :
      Alike R (.battle (.ofConstants encounter flags)) (.battle (.ofConstants encounter' flags'))

/-- Failures of tokens at one position, with errors that are alike. -/
structure Diagnostic.Alike (diagnostic other : Diagnostic) : Prop where
  index : diagnostic.index = other.index
  error : diagnostic.error.Alike other.error

/-- Scripts that ended at one position, with errors that are alike. -/
structure ScriptError.Alike (error other : ScriptError) : Prop where
  index : error.index = other.index
  cause : error.cause.Alike other.cause

/-- Scripts with alike instructions and alike failures, and as many operands left. -/
structure Script.Alike (R : Int32 → Int32 → Prop) (script other : Script) : Prop where
  instructions : List.Forall₂ (Instruction.Alike R) script.instructions other.instructions
  diagnostics : List.Forall₂ Diagnostic.Alike script.diagnostics other.diagnostics
  leftover : script.leftover = other.leftover

variable {R : Int32 → Int32 → Prop}

namespace Expression

/-- What has no value as a constant is of another kind. -/
theorem constant?_eq_none_iff {e : Expression} : e.constant? = none ↔ e.kind ≠ .constant := by
  cases e <;> simp [constant?, kind]

/-- Operands that are alike are of the same kind. -/
theorem Alike.kind_eq {e other : Expression} (alike : Alike R e other) : e.kind = other.kind := by
  cases alike with
  | constant related => rfl
  | memory v other => rfl
  | computed h h' => rw [h, h']

/-- What is like an operand that is no constant is none either. -/
theorem Alike.constant?_eq_none {e other : Expression} (alike : Alike R e other)
    (h : e.constant? = none) : other.constant? = none := by
  rw [constant?_eq_none_iff] at h ⊢
  rwa [← alike.kind_eq]

/-- What is like a constant is a constant of a related value. -/
theorem Alike.eq_constant {value : Int32} {other : Expression}
    (alike : Alike R (.constant value) other) :
    ∃ value', other = .constant value' ∧ R value value' := by
  cases alike with
  | constant related => exact ⟨_, rfl, related⟩
  | computed h h' => cases h

end Expression

/-- Calculations that take as many operands are both unary or both binary. -/
theorem Calculation.isUnary_eq_of_arity_eq {op other : Calculation}
    (h : op.arity = other.arity) : op.isUnary = other.isUnary := by
  unfold arity at h
  cases hop : op.isUnary <;> cases hother : other.isUnary <;> simp [hop, hother] at h ⊢

/-- A policy stops at both of two errors that are alike or at neither. -/
theorem ErrorPolicy.stopsAt_eq_of_alike (policy : ErrorPolicy) {cause other : DecodeError}
    (alike : cause.Alike other) : policy.stopsAt cause = policy.stopsAt other := by
  cases alike <;> cases policy <;> rfl

/-! ## One token -/

/-- Alike tokens take alike steps from alike stacks. -/
theorem Token.Step.alike {token other : Token} {stack stack' next : OperandStack}
    {outcome : Except DecodeError (Option Instruction)} (step : token.Step stack outcome next)
    (htoken : token.Alike R other)
    (hstack : List.Forall₂ (Expression.Alike R) stack.topFirst stack'.topFirst) :
    ∃ outcome' next', other.Step stack' outcome' next' ∧
      SameOutcome DecodeError.Alike (Option.Rel (Instruction.Alike R)) outcome outcome' ∧
      List.Forall₂ (Expression.Alike R) next.topFirst next'.topFirst := by
  obtain ⟨operands⟩ := stack'
  have hsize : stack.size = (⟨operands⟩ : OperandStack).size := hstack.length_eq
  cases step with
  | constant value =>
    cases htoken with
    | constant related =>
      exact ⟨_, _, .constant _ _, .ok .none, .cons (.constant related) hstack⟩
  | memory v =>
    cases htoken with
    | memory v other =>
      exact ⟨_, _, .memory other _, .ok .none, .cons (.memory v other) hstack⟩
  | unary takes operand rest =>
    cases htoken with
    | calculation arity =>
      have takes' := (Calculation.isUnary_eq_of_arity_eq arity).symm.trans takes
      obtain ⟨operand', rest', hoperand, hrest, rfl⟩ := List.forall₂_cons_left_iff.mp hstack
      exact ⟨_, _, .unary takes' operand' rest', .ok .none, .cons (.computed rfl rfl) hrest⟩
  | binary takes left right rest =>
    cases htoken with
    | calculation arity =>
      have takes' := (Calculation.isUnary_eq_of_arity_eq arity).symm.trans takes
      obtain ⟨right', _, hright, hbelow, rfl⟩ := List.forall₂_cons_left_iff.mp hstack
      obtain ⟨left', rest', hleft, hrest, rfl⟩ := List.forall₂_cons_left_iff.mp hbelow
      exact ⟨_, _, .binary takes' left' right' rest', .ok .none, .cons (.computed rfl rfl) hrest⟩
  | calculationShort short =>
    cases htoken with
    | calculation arity =>
      rw [hsize, arity] at short ⊢
      exact ⟨_, _, .calculationShort short, .error (.stackUnderflow ..), hstack⟩
  | nop parameter =>
    cases htoken with
    | operation opcode parameter other =>
      exact ⟨_, _, .nop other _, .ok (.some .nop), hstack⟩
  | battle parameter encounter flags rest =>
    cases htoken with
    | operation opcode parameter other =>
      obtain ⟨_, _, hflags, hbelow, rfl⟩ := List.forall₂_cons_left_iff.mp hstack
      obtain ⟨_, rest', hencounter, hrest, rfl⟩ := List.forall₂_cons_left_iff.mp hbelow
      obtain ⟨flags', rfl, relatedFlags⟩ := hflags.eq_constant
      obtain ⟨encounter', rfl, relatedEncounter⟩ := hencounter.eq_constant
      exact ⟨_, _, .battle other encounter' flags' rest',
        .ok (.some (.battle relatedEncounter relatedFlags)), hrest⟩
  | battleShort parameter short =>
    cases htoken with
    | operation opcode parameter other =>
      rw [hsize] at short ⊢
      exact ⟨_, _, .battleShort other short, .error (.stackUnderflow ..), hstack⟩
  | flagsInvalid parameter invalid encounter rest =>
    cases htoken with
    | operation opcode parameter other =>
      obtain ⟨operand', _, hoperand, hbelow, rfl⟩ := List.forall₂_cons_left_iff.mp hstack
      obtain ⟨encounter', rest', hencounter, hrest, rfl⟩ := List.forall₂_cons_left_iff.mp hbelow
      exact ⟨_, _, .flagsInvalid other (hoperand.constant?_eq_none invalid) encounter' rest',
        .error (.invalidOperand _ hoperand.kind_eq), .cons hencounter hrest⟩
  | encounterInvalid parameter flags invalid rest =>
    cases htoken with
    | operation opcode parameter other =>
      obtain ⟨_, _, hflags, hbelow, rfl⟩ := List.forall₂_cons_left_iff.mp hstack
      obtain ⟨operand', rest', hoperand, hrest, rfl⟩ := List.forall₂_cons_left_iff.mp hbelow
      obtain ⟨flags', rfl, -⟩ := hflags.eq_constant
      exact ⟨_, _, .encounterInvalid other flags' (hoperand.constant?_eq_none invalid) rest',
        .error (.invalidOperand _ hoperand.kind_eq), hrest⟩
  | unknown unlisted parameter =>
    cases htoken with
    | operation opcode parameter other =>
      exact ⟨_, _, .unknown unlisted other _, .error (.unknownOpcode _), hstack⟩

/-! ## Whole scripts -/

namespace Script

/-- Scripts stay alike behind instructions that are alike. -/
theorem Alike.consInstruction {i other : Instruction} {script script' : Script}
    (hi : i.Alike R other) (alike : script.Alike R script') :
    (script.consInstruction i).Alike R (script'.consInstruction other) :=
  ⟨.cons hi alike.instructions, alike.diagnostics, alike.leftover⟩

/-- Scripts stay alike behind failures that are alike. -/
theorem Alike.consDiagnostic {diagnostic other : Diagnostic} {script script' : Script}
    (hdiagnostic : diagnostic.Alike other) (alike : script.Alike R script') :
    (script.consDiagnostic diagnostic).Alike R (script'.consDiagnostic other) :=
  ⟨alike.instructions, .cons hdiagnostic alike.diagnostics, alike.leftover⟩

/-- Alike tokens decode alike from alike stacks. -/
theorem decodeFrom_alike (policy : ErrorPolicy) {tokens others : List Token}
    (htokens : List.Forall₂ (Token.Alike R) tokens others) (index : Nat)
    {stack stack' : OperandStack}
    (hstack : List.Forall₂ (Expression.Alike R) stack.topFirst stack'.topFirst) :
    SameOutcome ScriptError.Alike (Script.Alike R)
      (decodeFrom policy index stack tokens).1 (decodeFrom policy index stack' others).1 := by
  induction htokens generalizing index stack stack' with
  | nil => exact .ok ⟨.nil, .nil, hstack.length_eq⟩
  | @cons token other rest rest' htoken hrest ih =>
    obtain ⟨outcome, next, step⟩ := token.exists_step stack
    obtain ⟨outcome', next', step', same, hnext⟩ := step.alike htoken hstack
    -- both runs go on in the same way, so that one equation unfolds either
    cases same with
    | @error cause cause' related =>
      have hstops := policy.stopsAt_eq_of_alike related
      cases hstop : policy.stopsAt cause with
      | true =>
        rw [decodeFrom_cons_of_stop step.runOn_decode hstop,
          decodeFrom_cons_of_stop step'.runOn_decode (hstops ▸ hstop)]
        exact .error ⟨rfl, related⟩
      | false =>
        rw [decodeFrom_cons_of_skip step.runOn_decode hstop,
          decodeFrom_cons_of_skip step'.runOn_decode (hstops ▸ hstop)]
        exact (ih (index + 1) hnext).map fun _ _ alike => alike.consDiagnostic ⟨rfl, related⟩
    | ok related =>
      cases related with
      | none =>
        rw [decodeFrom_cons_of_none step.runOn_decode, decodeFrom_cons_of_none step'.runOn_decode]
        exact ih (index + 1) hnext
      | some hi =>
        rw [decodeFrom_cons_of_some step.runOn_decode, decodeFrom_cons_of_some step'.runOn_decode]
        exact (ih (index + 1) hnext).map fun _ _ alike => alike.consInstruction hi

/-- Tokens that are alike decode to scripts or to errors that are alike, under either policy. -/
theorem decode_alike (policy : ErrorPolicy) {tokens others : List Token}
    (htokens : List.Forall₂ (Token.Alike R) tokens others) :
    SameOutcome ScriptError.Alike (Script.Alike R) (decode policy tokens)
      (decode policy others) :=
  decodeFrom_alike policy htokens 0 .nil

end Script

/-! ## Shape and constants -/

/-- Constants that are congruent modulo 2¹⁶. -/
def CongruentConstants (value other : Int32) : Prop :=
  value.toInt % 65536 = other.toInt % 65536

/-- Constants that agree in two bytes agree in the lower one. -/
theorem CongruentConstants.emod_byte {value other : Int32} (h : CongruentConstants value other) :
    value.toInt % 256 = other.toInt % 256 := by
  have byte_dvd_word : (256 : Int) ∣ 65536 := ⟨256, rfl⟩
  rw [← Int.emod_emod_of_dvd value.toInt byte_dvd_word,
    ← Int.emod_emod_of_dvd other.toInt byte_dvd_word, h]

/-- Constants that agree in two bytes make the same battle. -/
theorem Battle.ofConstants_eq_of_congruent {encounter encounter' flags flags' : Int32}
    (hencounter : CongruentConstants encounter encounter')
    (hflags : CongruentConstants flags flags') :
    ofConstants encounter flags = ofConstants encounter' flags' := by
  have hword := uint16_wraps.ofInt_eq_of_emod_eq hencounter
  have hbyte := uint8_wraps.ofInt_eq_of_emod_eq hflags.emod_byte
  simp only [ofConstants, hword, hbyte]

/-- Instructions that are alike have the same opcode. -/
theorem Instruction.Alike.opcode_eq {i other : Instruction} (alike : i.Alike R other) :
    i.opcode = other.opcode := by
  cases alike with
  | nop => rfl
  | battle encounters flagSets => simp only [opcode]

/-- Instructions of constants that agree in two bytes are the same. -/
theorem Instruction.Alike.eq_of_congruent {i other : Instruction}
    (alike : i.Alike CongruentConstants other) : i = other := by
  cases alike with
  | nop => rfl
  | battle encounters flagSets => rw [Battle.ofConstants_eq_of_congruent encounters flagSets]

/-- Tokens whose constants are related in one way are alike in every weaker way. -/
theorem Token.Alike.imp {S : Int32 → Int32 → Prop} (h : ∀ value other, R value other → S value other)
    {token other : Token} (alike : token.Alike R other) : token.Alike S other := by
  cases alike with
  | constant related => exact .constant (h _ _ related)
  | memory v other => exact .memory v other
  | calculation arity => exact .calculation arity
  | operation opcode parameter other => exact .operation opcode parameter other

namespace Script

/-- Scripts with the same opcodes, alike failures and as many operands left. -/
structure SameForm (script other : Script) : Prop where
  opcodes : script.instructions.map Instruction.opcode = other.instructions.map Instruction.opcode
  diagnostics : List.Forall₂ Diagnostic.Alike script.diagnostics other.diagnostics
  leftover : script.leftover = other.leftover

/-- Scripts that are alike have the same form. -/
theorem Alike.sameForm {script other : Script} (alike : script.Alike R other) :
    script.SameForm other := by
  refine ⟨?_, alike.diagnostics, alike.leftover⟩
  rw [← List.forall₂_eq_eq_eq, List.forall₂_map_left_iff, List.forall₂_map_right_iff]
  exact alike.instructions.imp fun i other h => h.opcode_eq

/-- Scripts of constants that agree in two bytes have the same instructions. -/
theorem Alike.instructions_eq {script other : Script}
    (alike : script.Alike CongruentConstants other) :
    script.instructions = other.instructions := by
  rw [← List.forall₂_eq_eq_eq]
  exact alike.instructions.imp fun i other h => h.eq_of_congruent

/-- Decoding depends on the shape of a script only. Two scripts of one shape, whatever
their constants, variables and parameters, both decode or both fail; they fail at the
same position with alike errors, and they decode to instructions with the same opcodes,
alike failures at the same positions and as many operands left. If the constants also
agree modulo 2¹⁶, the instructions are the same. -/
theorem decode_of_sameShape (policy : ErrorPolicy) (tokens others : List Token) :
    (List.Forall₂ (Token.Alike fun _ _ => True) tokens others →
      SameOutcome ScriptError.Alike SameForm (decode policy tokens) (decode policy others)) ∧
    (List.Forall₂ (Token.Alike CongruentConstants) tokens others →
      ∀ script other, decode policy tokens = .ok script → decode policy others = .ok other →
        script.instructions = other.instructions) := by
  constructor
  · intro htokens
    exact (decode_alike policy htokens).imp fun script other alike => alike.sameForm
  · intro htokens script other hscript hother
    have same := decode_alike policy htokens
    rw [hscript, hother] at same
    cases same with
    | ok related => exact related.instructions_eq

/-- A battle, and another that has a calculation for its encounter. -/
def plainBattles : List Token :=
  [.constant 1, .constant 16, .operation .battle 0, .memory ⟨.byte, 1⟩, .calculation .neg,
    .constant 3, .operation .battle 0]

/-- The same in other words. -/
def disguisedBattles : List Token :=
  [.constant 65537, .constant (-65520), .operation .battle 7, .memory ⟨.signedLong, 9⟩,
    .calculation .not, .constant 65539, .operation .battle (-1)]

/-- Battles of other constants with the same remainders decode to the same instructions. -/
theorem decode_of_sameShape_disguisedBattles :
    List.Forall₂ (Token.Alike CongruentConstants) plainBattles disguisedBattles ∧
    SameOutcome ScriptError.Alike SameForm (decode .skip plainBattles)
      (decode .skip disguisedBattles) ∧
    ∀ script other, decode .skip plainBattles = .ok script →
      decode .skip disguisedBattles = .ok other → script.instructions = other.instructions := by
  have h : List.Forall₂ (Token.Alike CongruentConstants) plainBattles disguisedBattles := by
    refine .cons (.constant ?_) (.cons (.constant ?_) (.cons (.operation ..) (.cons (.memory ..)
      (.cons (.calculation ?_) (.cons (.constant ?_) (.cons (.operation ..) .nil)))))) <;> rfl
  refine ⟨h, ?_, (decode_of_sameShape .skip _ _).2 h⟩
  exact (decode_of_sameShape .skip _ _).1 (h.imp fun token other => Token.Alike.imp (by simp))

end Script

end EventScript
