import EventScript.Proofs.Script.Feeding
import EventScript.Proofs.Script.Shape

/-!
# Why tokens fail

A token fails for one of three reasons, and each can be seen from the token and the stack: nothing
is known about its opcode, fewer operands wait than it takes, or it begins a battle and one of the
two topmost operands is no constant. The error names the reason with what the stack was like, and
what is left on the stack is what the reason leaves: everything for the first two, what lies below
the operand for the third.
-/

set_option autoImplicit false

namespace EventScript

variable {token : Token} {stack next : OperandStack} {opcode : Opcode} {operand : Expression}
  {outcome : Except DecodeError (Option Instruction)}

/-! ## Operands that tokens take -/

/-- `Needs token opcode needed`: the token takes `needed` operands, on behalf of `opcode`. Tokens
that take none are left out. -/
inductive Token.Needs : Token → Opcode → Nat → Prop
  | neg : Needs (.calculation .neg) .calculate 1
  | not : Needs (.calculation .not) .calculate 1
  | binary {op : Calculation} (hneg : op ≠ .neg) (hnot : op ≠ .not) :
      Needs (.calculation op) .calculate 2
  | battle (parameter : Int32) : Needs (.operation .battle parameter) .battle 2

/-- A calculation needs as many operands as it takes. -/
theorem Calculation.needs (op : Calculation) :
    Token.Needs (.calculation op) .calculate op.arity := by
  cases op with
  | neg => exact .neg
  | not => exact .not
  | _ => exact .binary (by decide) (by decide)

namespace Token

/-- For each calculation one number of operands is needed. -/
theorem Needs.eq_arity {op : Calculation} {needed : Nat}
    (needs : Needs (.calculation op) opcode needed) : opcode = .calculate ∧ needed = op.arity := by
  cases needs with
  | neg => exact ⟨rfl, rfl⟩
  | not => exact ⟨rfl, rfl⟩
  | binary hneg hnot =>
    have hbinary : op.isUnary = false := by
      cases op with
      | neg => exact absurd rfl hneg
      | not => exact absurd rfl hnot
      | _ => rfl
    exact ⟨rfl, by rw [Calculation.arity, hbinary]; rfl⟩

/-! ## Steps that fail -/

/-- An opcode is found to be unknown exactly when the table does not have it, whatever waits. -/
theorem step_unknownOpcode_iff : Step token stack (.error (.unknownOpcode opcode)) next ↔
    (∃ parameter, token = .operation opcode parameter) ∧
      OpcodeTable.contains opcode = false ∧ next = stack := by
  constructor
  · intro step
    cases step with
    | unknown unlisted parameter => exact ⟨⟨parameter, rfl⟩, unlisted, rfl⟩
  · rintro ⟨⟨parameter, rfl⟩, unlisted, rfl⟩
    exact .unknown unlisted parameter _

/-- Too few operands wait exactly when there are fewer than the token needs. -/
theorem step_stackUnderflow_iff {needed available : Nat} :
    Step token stack (.error (.stackUnderflow opcode needed available)) next ↔
      token.Needs opcode needed ∧ stack.size < needed ∧ available = stack.size ∧ next = stack := by
  constructor
  · intro step
    cases step with
    | @calculationShort op _ short => exact ⟨op.needs, short, rfl, rfl⟩
    | battleShort parameter short => exact ⟨.battle parameter, short, rfl, rfl⟩
  · rintro ⟨needs, short, rfl, rfl⟩
    -- the need is that of the token, so the step is told by the token
    cases token with
    | calculation op =>
      obtain ⟨rfl, rfl⟩ := needs.eq_arity
      exact .calculationShort short
    | operation opcode parameter =>
      cases needs with
      | battle parameter => exact .battleShort parameter short
    | constant value => cases needs
    | memory v => cases needs

/-- An operand is found to be invalid exactly when it is the topmost of the two operands of a
battle that is no constant. -/
theorem step_invalidOperand_iff :
    Step token stack (.error (.invalidOperand opcode operand)) next ↔
      opcode = .battle ∧ (∃ parameter, token = .operation .battle parameter) ∧
        2 ≤ stack.size ∧ operand.kind ≠ .constant ∧
        ∃ constants below, stack.topFirst = constants ++ operand :: below ∧
          constants.length < 2 ∧ (∀ e ∈ constants, e.kind = .constant) ∧ next = ⟨below⟩ := by
  constructor
  · intro step
    cases step with
    | flagsInvalid parameter invalid encounter rest =>
      have hkind := Expression.constant?_eq_none_iff.mp invalid
      exact ⟨rfl, ⟨parameter, rfl⟩, Battle.arity_le_size .., hkind,
        [], encounter :: rest, rfl, Nat.zero_lt_two, nofun, rfl⟩
    | encounterInvalid parameter flags invalid rest =>
      have hkind := Expression.constant?_eq_none_iff.mp invalid
      have hflags : (Expression.constant flags).kind = .constant := rfl
      exact ⟨rfl, ⟨parameter, rfl⟩, Battle.arity_le_size .., hkind,
        [.constant flags], rest, rfl, Nat.one_lt_two, by simpa using hflags, rfl⟩
  · rintro ⟨rfl, ⟨parameter, rfl⟩, enough, hkind, constants, below, hstack, hlength, hconstants,
      rfl⟩
    have invalid := Expression.constant?_eq_none_iff.mpr hkind
    obtain ⟨operands⟩ := stack
    obtain rfl : operands = constants ++ operand :: below := hstack
    -- above the invalid operand are no constants, if it is the flags, or the flags
    rcases constants with _ | ⟨flags, _ | ⟨other, others⟩⟩
    · cases below with
      | nil => exact absurd enough (by simp [OperandStack.size])
      | cons encounter rest => exact .flagsInvalid parameter invalid encounter rest
    · have hflags := hconstants flags List.mem_cons_self
      cases flags with
      | constant value => exact .encounterInvalid parameter value invalid below
      | _ => cases hflags
    · exact absurd hlength (by simp)

/-- What lies below the two topmost operands stays where it is. -/
theorem Step.drop_two_suffix (step : Step token stack outcome next) :
    stack.topFirst.drop 2 <:+ next.topFirst := by
  obtain ⟨taken, rest, rfl, htaken, hnext⟩ := step.frame
  have hbelow : (taken ++ rest).drop 2 <:+ rest := by
    rw [List.drop_append, List.drop_eq_nil_of_le htaken]
    exact List.drop_suffix _ _
  rcases hnext with rfl | ⟨operand, rfl, -⟩
  · exact hbelow
  · exact hbelow.trans (List.suffix_cons _ _)

end Token

/-- Only constants are named so. -/
theorem ExpressionKind.name_eq_constant_iff {kind : ExpressionKind} :
    kind.name = "constant" ↔ kind = .constant := by
  cases kind <;> decide

/-! ## What errors report -/

/-- What is no constant is a variable or computed. -/
theorem ExpressionKind.name_of_ne_constant {kind : ExpressionKind} (h : kind ≠ .constant) :
    kind.name = "variable" ∨ kind.name = "computed" := by
  cases kind with
  | constant => exact absurd rfl h
  | memory => exact .inl rfl
  | computed => exact .inr rfl

/-- Among the two topmost operands the first that is no constant is the one with nothing but
constants above it. -/
theorem find?_take_two_eq_some_iff {operands : List Expression} :
    (operands.take 2).find? (·.kind ≠ .constant) = some operand ↔
      operand.kind ≠ .constant ∧ ∃ constants below, operands = constants ++ operand :: below ∧
        constants.length < 2 ∧ ∀ e ∈ constants, e.kind = .constant := by
  rw [List.find?_eq_some_iff_append]
  simp only [decide_not, Bool.not_not, Bool.not_eq_true', decide_eq_false_iff_not,
    decide_eq_true_eq]
  apply and_congr_right
  intro hkind
  constructor
  · rintro ⟨constants, others, htake, hconstants⟩
    refine ⟨constants, others ++ operands.drop 2, ?_, ?_, hconstants⟩
    · rw [← List.cons_append, ← List.append_assoc, ← htake, List.take_append_drop]
    · have hlength := List.length_take_le 2 operands
      rw [htake, List.length_append, List.length_cons] at hlength
      omega
  · rintro ⟨constants, below, rfl, hlength, hconstants⟩
    refine ⟨constants, below.take (1 - constants.length), ?_, hconstants⟩
    have hrest : 2 - constants.length = (1 - constants.length) + 1 := by omega
    rw [List.take_append, List.take_of_length_le (by omega), hrest, List.take_succ_cons]

namespace DecodeError

variable {error : DecodeError} {found rendered : String}

/-- Something is found where a constant belongs only if an operand is invalid, and its kind and its
text are what is reported. -/
theorem found?_and_rendered?_iff :
    error.found? = some found ∧ error.rendered? = some rendered ↔
      ∃ opcode operand, error = .invalidOperand opcode operand ∧ found = operand.kind.name ∧
        rendered = operand.text := by
  cases error with
  | stackUnderflow opcode needed available => simp [found?]
  | invalidOperand opcode operand => simp [found?, rendered?, eq_comm]
  | unknownOpcode opcode => simp [found?]

/-- The message of an invalid operand shows its kind and its text. -/
theorem message_invalidOperand_battle (operand : Expression) :
    (invalidOperand .battle operand).message =
      "invalid operand for BATTLE (0x069): expected a constant, found " ++ operand.kind.name ++
        " `" ++ operand.text ++ "`" := by
  have hopcode : Opcode.battle.text = "BATTLE (0x069)" := by decide
  have hmessage : (invalidOperand .battle operand).message =
      "invalid operand for " ++ Opcode.battle.text ++ ": expected a constant, found " ++
        operand.kind.name ++ " `" ++ operand.text ++ "`" := rfl
  rw [hmessage, hopcode]
  apply String.toList_inj.mp
  simp

end DecodeError

/-! ## Errors of a decoder -/

namespace Decoder

variable {decoder other : Decoder} {needed available : Nat}

/-- A decoder is its stack and its policy. -/
theorem eq_iff : decoder = other ↔
    decoder.stack = other.stack ∧ decoder.policy = other.policy := by
  obtain ⟨policy, stack⟩ := decoder
  obtain ⟨policy', stack'⟩ := other
  simp [and_comm]

/-- A decoder finds an opcode to be unknown exactly when the table does not have it, and is as
before. -/
theorem feed_unknownOpcode_iff :
    decoder.feed token = (.error (.unknownOpcode opcode), other) ↔
      (∃ parameter, token = .operation opcode parameter) ∧
        OpcodeTable.contains opcode = false ∧ other = decoder := by
  rw [feed_eq_iff, Token.step_unknownOpcode_iff, eq_iff, and_assoc, and_assoc]

/-- A decoder finds too few operands exactly when there are fewer than the token needs, and is as
before. -/
theorem feed_stackUnderflow_iff :
    decoder.feed token = (.error (.stackUnderflow opcode needed available), other) ↔
      token.Needs opcode needed ∧ decoder.stack.size < needed ∧
        available = decoder.stack.size ∧ other = decoder := by
  rw [feed_eq_iff, Token.step_stackUnderflow_iff, eq_iff, and_assoc, and_assoc, and_assoc]

/-- A decoder finds an operand to be invalid exactly when it is the topmost of the two operands of a
battle that is no constant, and has lost it and what was above it. -/
theorem feed_invalidOperand_iff :
    decoder.feed token = (.error (.invalidOperand opcode operand), other) ↔
      opcode = .battle ∧ (∃ parameter, token = .operation .battle parameter) ∧
        2 ≤ decoder.stack.size ∧ operand.kind ≠ .constant ∧
        ∃ constants below, decoder.stack.topFirst = constants ++ operand :: below ∧
          constants.length < 2 ∧ (∀ e ∈ constants, e.kind = .constant) ∧
          other = { decoder with stack := ⟨below⟩ } := by
  rw [feed_eq_iff, Token.step_invalidOperand_iff]
  constructor
  · rintro ⟨⟨hopcode, htoken, henough, hkind, constants, below, hstack, hlength, hconstants,
      hbelow⟩, hpolicy⟩
    exact ⟨hopcode, htoken, henough, hkind, constants, below, hstack, hlength, hconstants,
      eq_iff.mpr ⟨hbelow, hpolicy⟩⟩
  · rintro ⟨hopcode, htoken, henough, hkind, constants, below, hstack, hlength, hconstants, rfl⟩
    exact ⟨⟨hopcode, htoken, henough, hkind, constants, below, hstack, hlength, hconstants, rfl⟩,
      rfl⟩

/-- What lies below the two topmost operands stays where it is, whatever a decoder is fed. -/
theorem drop_two_suffix_feed (decoder : Decoder) (token : Token) :
    decoder.stack.topFirst.drop 2 <:+ (decoder.feed token).2.stack.topFirst := by
  obtain ⟨outcome, stack, step⟩ := token.exists_step decoder.stack
  rw [feed_of_step step]
  exact step.drop_two_suffix

/-- What is found where a constant belongs is the topmost of the two operands of a battle that is
none, by the name of its kind and its text. -/
theorem feed_found_iff {found rendered : String} :
    (∃ error, (decoder.feed token).1 = .error error ∧ error.found? = some found ∧
      error.rendered? = some rendered) ↔
    (∃ parameter, token = .operation .battle parameter) ∧ 2 ≤ decoder.stack.size ∧
      ∃ operand, (decoder.stack.topFirst.take 2).find? (·.kind ≠ .constant) = some operand ∧
        found = operand.kind.name ∧ rendered = operand.text := by
  simp only [DecodeError.found?_and_rendered?_iff, find?_take_two_eq_some_iff]
  constructor
  · rintro ⟨_, hfeed, opcode, operand, rfl, hfound, hrendered⟩
    obtain ⟨-, htoken, henough, hkind, constants, below, hstack, hlength, hconstants, -⟩ :=
      feed_invalidOperand_iff.mp (Prod.ext hfeed rfl)
    exact ⟨htoken, henough, operand, ⟨hkind, constants, below, hstack, hlength, hconstants⟩, hfound,
      hrendered⟩
  · rintro ⟨htoken, henough, operand, ⟨hkind, constants, below, hstack, hlength, hconstants⟩,
      hfound, hrendered⟩
    have hfeed := feed_invalidOperand_iff.mpr
      ⟨rfl, htoken, henough, hkind, constants, below, hstack, hlength, hconstants, rfl⟩
    exact ⟨_, congrArg Prod.fst hfeed, .battle, operand, rfl, hfound, hrendered⟩

/-- Every error of a decoder tells what was the matter, and what it does to the stack follows. An
opcode is unknown exactly if the table does not have it, and operands are missing exactly if there
are fewer than the token needs; either way nothing changes. An operand is invalid exactly if it is
the topmost of the two operands of a battle that is no constant; it is taken off the stack with what
lies above it, and the error reports its kind and its text, which the message shows. So one missing
operand is reported for negation and complement alone and never by a pop of another token, what was
found is a variable or computed and never a constant, and what lies below the two topmost operands
always stays. -/
theorem feed_errors_truthful (decoder : Decoder) (token : Token) :
    (∀ opcode next, decoder.feed token = (.error (.unknownOpcode opcode), next) ↔
      (∃ parameter, token = .operation opcode parameter) ∧
        OpcodeTable.contains opcode = false ∧ next = decoder) ∧
    (∀ opcode needed available next,
      decoder.feed token = (.error (.stackUnderflow opcode needed available), next) ↔
        token.Needs opcode needed ∧ decoder.stack.size < needed ∧
          available = decoder.stack.size ∧ next = decoder) ∧
    (∀ opcode operand next,
      decoder.feed token = (.error (.invalidOperand opcode operand), next) ↔
        opcode = .battle ∧ (∃ parameter, token = .operation .battle parameter) ∧
          2 ≤ decoder.stack.size ∧ operand.kind ≠ .constant ∧
          ∃ constants below, decoder.stack.topFirst = constants ++ operand :: below ∧
            constants.length < 2 ∧ (∀ e ∈ constants, e.kind = .constant) ∧
            next = { decoder with stack := ⟨below⟩ }) ∧
    (∀ opcode available, (decoder.feed token).1 = .error (.stackUnderflow opcode 1 available) →
      token = .calculation .neg ∨ token = .calculation .not) ∧
    (∀ opcode operand, (decoder.feed token).1 = .error (.invalidOperand opcode operand) →
      operand.kind.name ≠ "constant") ∧
    (∀ found rendered,
      (∃ error, (decoder.feed token).1 = .error error ∧ error.found? = some found ∧
        error.rendered? = some rendered) ↔
      (∃ parameter, token = .operation .battle parameter) ∧ 2 ≤ decoder.stack.size ∧
        ∃ operand, (decoder.stack.topFirst.take 2).find? (·.kind ≠ .constant) = some operand ∧
          found = operand.kind.name ∧ rendered = operand.text) ∧
    (∀ error found rendered, (decoder.feed token).1 = .error error →
      error.found? = some found → error.rendered? = some rendered →
        (found = "variable" ∨ found = "computed") ∧
        error.message = "invalid operand for BATTLE (0x069): expected a constant, found " ++
          found ++ " `" ++ rendered ++ "`") ∧
    decoder.stack.topFirst.drop 2 <:+ (decoder.feed token).2.stack.topFirst := by
  refine ⟨fun _ _ => feed_unknownOpcode_iff, fun _ _ _ _ => feed_stackUnderflow_iff,
    fun _ _ _ => feed_invalidOperand_iff, ?_, ?_, fun _ _ => feed_found_iff, ?_,
    drop_two_suffix_feed decoder token⟩
  · intro opcode available h
    obtain ⟨needs, -⟩ := feed_stackUnderflow_iff.mp (Prod.ext h rfl)
    cases needs with
    | neg => exact .inl rfl
    | not => exact .inr rfl
  · intro opcode operand h
    obtain ⟨-, -, -, hkind, -⟩ := feed_invalidOperand_iff.mp (Prod.ext h rfl)
    exact mt ExpressionKind.name_eq_constant_iff.mp hkind
  · intro error found rendered herror hfound hrendered
    obtain ⟨opcode, operand, rfl, rfl, rfl⟩ :=
      DecodeError.found?_and_rendered?_iff.mp ⟨hfound, hrendered⟩
    obtain ⟨rfl, -, -, hkind, -⟩ := feed_invalidOperand_iff.mp (Prod.ext herror rfl)
    exact ⟨ExpressionKind.name_of_ne_constant hkind,
      DecodeError.message_invalidOperand_battle operand⟩

/-- A decoder with a variable between two constants. -/
def variableBetween : Decoder where
  policy := .skip
  stack := ⟨[.constant 1, .memory ⟨.word, 2⟩, .constant 5]⟩

/-- A decoder with a sum on top. -/
def sumOnTop : Decoder where
  policy := .abort
  stack := ⟨[.binary .add (.constant 1) (.memory ⟨.word, 2⟩), .constant 5]⟩

/-- A variable below the flags and a sum in their place are reported by their kind and text; a sum
without operands lacks two, never one. -/
theorem feed_errors_truthful_variableBetween :
    variableBetween.feed (.operation .battle 0) =
      (.error (.invalidOperand .battle (.memory ⟨.word, 2⟩)), ⟨.skip, ⟨[.constant 5]⟩⟩) ∧
    (∃ error, (variableBetween.feed (.operation .battle 0)).1 = .error error ∧
      error.found? = some "variable" ∧ error.rendered? = some "var_w[0x0002]" ∧
      error.message =
        "invalid operand for BATTLE (0x069): expected a constant, found variable `var_w[0x0002]`") ∧
    (∃ error, (sumOnTop.feed (.operation .battle 7)).1 = .error error ∧
      error.found? = some "computed" ∧ error.rendered? = some "(1 + var_w[0x0002])" ∧
      error.message = "invalid operand for BATTLE (0x069): " ++
        "expected a constant, found computed `(1 + var_w[0x0002])`") ∧
    (⟨.abort, .empty⟩ : Decoder).feed (.calculation .add) =
      (.error (.stackUnderflow .calculate 2 0), ⟨.abort, .empty⟩) ∧
    ((⟨.abort, .empty⟩ : Decoder).feed (.calculation .add)).1 ≠
      .error (.stackUnderflow .calculate 1 0) := by
  obtain ⟨-, -, hinvalid, -, -, hreported, hmessage, -⟩ :=
    feed_errors_truthful variableBetween (.operation .battle 0)
  obtain ⟨-, -, -, -, -, hcomputed, hshown, -⟩ :=
    feed_errors_truthful sumOnTop (.operation .battle 7)
  obtain ⟨-, hshort, -, hsingle, -⟩ := feed_errors_truthful ⟨.abort, .empty⟩ (.calculation .add)
  refine ⟨?_, ?_, ?_, ?_, ?_⟩
  · exact (hinvalid _ _ _).mpr ⟨rfl, ⟨0, rfl⟩, by decide, by decide, [.constant 1],
      [.constant 5], rfl, by decide, by decide, rfl⟩
  · obtain ⟨error, herror, hfound, hrendered⟩ := (hreported "variable" "var_w[0x0002]").mpr
      ⟨⟨0, rfl⟩, by decide, .memory ⟨.word, 2⟩, rfl, rfl, by decide⟩
    exact ⟨error, herror, hfound, hrendered, (hmessage _ _ _ herror hfound hrendered).2⟩
  · obtain ⟨error, herror, hfound, hrendered⟩ := (hcomputed "computed" "(1 + var_w[0x0002])").mpr
      ⟨⟨7, rfl⟩, by decide, .binary .add (.constant 1) (.memory ⟨.word, 2⟩), rfl, rfl, by decide⟩
    exact ⟨error, herror, hfound, hrendered, (hshown _ _ _ herror hfound hrendered).2⟩
  · exact (hshort _ _ _ _).mpr ⟨.binary (by decide) (by decide), by decide, rfl, rfl⟩
  · exact fun h => absurd (hsingle _ _ h) (by decide)

end Decoder

end EventScript
