import EventScript.Proofs.Script.Feeding

/-!
# Operand tokens as postfix notation

The tokens that push and calculate write the operands of a script in postfix notation.
Expressions are read back from the tokens that encode them, whatever waits below; the
tokens that built a stack are those that encode it; and only expressions of the right
form ever come onto a stack, so that encoding loses none of them.
-/

set_option autoImplicit false

namespace EventScript

/-- Whether a token works on operands only: it pushes one or calculates. -/
def Token.isOperand : Token → Bool
  | operation _ _ => false
  | _ => true

namespace Token.Step

variable {token : Token} {stack next : OperandStack}
  {outcome : Except DecodeError (Option Instruction)}

/-- A token that gives neither an instruction nor an error adds itself to the encoding of
the stack. -/
theorem flatMap_encode (step : token.Step stack (.ok none) next) :
    next.toList.flatMap Expression.encode = stack.toList.flatMap Expression.encode ++ [token] := by
  cases step with
  | constant value => simp [Expression.encode]
  | memory v => simp [Expression.encode]
  | unary takes operand rest => simp [OperandStack.toList, Expression.encode]
  | binary takes left right rest => simp [OperandStack.toList, Expression.encode]

/-- A token of an operand gives no instruction. -/
theorem eq_none_of_isOperand {i : Option Instruction} (step : token.Step stack (.ok i) next)
    (h : token.isOperand = true) : i = none := by
  cases step with
  | constant value => rfl
  | memory v => rfl
  | unary takes operand rest => rfl
  | binary takes left right rest => rfl
  | nop parameter => cases h
  | battle parameter encounter flags rest => cases h

/-- A calculation is built on as many operands as it takes, and no other step builds. -/
theorem wellFormed (step : token.Step stack outcome next)
    (h : ∀ e ∈ stack.topFirst, e.wellFormed = true) :
    ∀ e ∈ next.topFirst, e.wellFormed = true := by
  cases step with
  | constant value => exact List.forall_mem_cons.mpr ⟨rfl, h⟩
  | memory v => exact List.forall_mem_cons.mpr ⟨rfl, h⟩
  | unary takes operand rest =>
    obtain ⟨hoperand, hrest⟩ := List.forall_mem_cons.mp h
    exact List.forall_mem_cons.mpr ⟨by simp [Expression.wellFormed, takes, hoperand], hrest⟩
  | binary takes left right rest =>
    obtain ⟨hright, hbelow⟩ := List.forall_mem_cons.mp h
    obtain ⟨hleft, hrest⟩ := List.forall_mem_cons.mp hbelow
    exact List.forall_mem_cons.mpr ⟨by simp [Expression.wellFormed, takes, hleft, hright], hrest⟩
  | battle parameter encounter flags rest =>
    exact (List.forall_mem_cons.mp (List.forall_mem_cons.mp h).2).2
  | flagsInvalid parameter invalid encounter rest => exact (List.forall_mem_cons.mp h).2
  | encounterInvalid parameter flags invalid rest =>
    exact (List.forall_mem_cons.mp (List.forall_mem_cons.mp h).2).2
  | calculationShort short => exact h
  | nop parameter => exact h
  | battleShort parameter short => exact h
  | unknown unlisted parameter => exact h

end Token.Step

namespace Decoder

variable {decoder middle next : Decoder}

/-- Fed the tokens, the decoder gives neither an instruction nor an error, and goes to
`next`. -/
def Takes (decoder : Decoder) (tokens : List Token) (next : Decoder) : Prop :=
  decoder.feedAll tokens = (List.replicate tokens.length (.ok none), next)

/-- No tokens lead nowhere else. -/
theorem Takes.nil (decoder : Decoder) : decoder.Takes [] decoder := rfl

/-- Tokens lead on from where those before them led to. -/
theorem Takes.append {first second : List Token} (h : decoder.Takes first middle)
    (h' : middle.Takes second next) : decoder.Takes (first ++ second) next := by
  unfold Takes at h h' ⊢
  rw [feedAll_append, h, h', List.replicate_append_replicate, List.length_append]

/-- A step without an instruction leads to its stack. -/
theorem takes_of_step {token : Token} {stack : OperandStack}
    (step : token.Step decoder.stack (.ok none) stack) :
    decoder.Takes [token] { decoder with stack } := by
  unfold Takes
  rw [feedAll_cons_of_step step]
  rfl

/-! ## From expressions to tokens and back -/

/-- The tokens that encode an expression push it. -/
theorem takes_encode {e : Expression} (h : e.wellFormed = true) (decoder : Decoder) :
    decoder.Takes e.encode { decoder with stack := decoder.stack.push e } := by
  induction e generalizing decoder with
  | constant value => exact takes_of_step (.constant value decoder.stack)
  | memory v => exact takes_of_step (.memory v decoder.stack)
  | unary op operand ih =>
    simp only [Expression.wellFormed, Bool.and_eq_true] at h
    exact (ih h.2 decoder).append (takes_of_step (.unary h.1 operand decoder.stack.topFirst))
  | binary op left right ihLeft ihRight =>
    simp only [Expression.wellFormed, Bool.and_eq_true, Bool.not_eq_true'] at h
    have hleft := ihLeft h.1.2 decoder
    have hright := ihRight h.2 { decoder with stack := decoder.stack.push left }
    exact (hleft.append hright).append
      (takes_of_step (.binary h.1.1 left right decoder.stack.topFirst))

/-- The tokens of operands, one after another, place these operands on the stack. -/
theorem takes_flatMap_encode {es : List Expression} (h : ∀ e ∈ es, e.wellFormed = true)
    (decoder : Decoder) :
    decoder.Takes (es.flatMap Expression.encode)
      { decoder with stack := .ofList (decoder.stack.toList ++ es) } := by
  induction es generalizing decoder with
  | nil =>
    rw [List.append_nil, OperandStack.ofList_toList]
    exact .nil decoder
  | cons e es ih =>
    obtain ⟨he, hes⟩ := List.forall_mem_cons.mp h
    have hrest := ih hes { decoder with stack := decoder.stack.push e }
    rw [OperandStack.toList_push, List.append_assoc, List.singleton_append] at hrest
    exact (takes_encode he decoder).append hrest

/-- Operand tokens that a decoder is fed without an error are added to the encoding of
its stack. -/
theorem flatMap_encode_feedAll {tokens : List Token}
    (hoperand : ∀ token ∈ tokens, token.isOperand = true) (decoder : Decoder)
    (hok : ∀ outcome ∈ (decoder.feedAll tokens).1, outcome.isOk = true) :
    (decoder.feedAll tokens).2.stack.toList.flatMap Expression.encode =
      decoder.stack.toList.flatMap Expression.encode ++ tokens := by
  induction tokens generalizing decoder with
  | nil => exact (List.append_nil _).symm
  | cons token rest ih =>
    obtain ⟨htoken, hrest⟩ := List.forall_mem_cons.mp hoperand
    obtain ⟨outcome, stack, step⟩ := token.exists_step decoder.stack
    rw [feedAll_cons_of_step step] at hok ⊢
    obtain ⟨hfirst, hothers⟩ := List.forall_mem_cons.mp hok
    cases outcome with
    | error cause => cases hfirst
    | ok i =>
      obtain rfl := step.eq_none_of_isOperand htoken
      rw [ih hrest _ hothers, step.flatMap_encode, List.append_assoc, List.singleton_append]

/-- Whatever calls a decoder has had, its operands are well-formed. -/
theorem Reachable.wellFormed (reachable : decoder.Reachable) :
    ∀ e ∈ decoder.stack.toList, e.wellFormed = true := by
  have h : ∀ e ∈ decoder.stack.topFirst, e.wellFormed = true := by
    refine reachable.keeps (motive := fun stack => ∀ e ∈ stack.topFirst, e.wellFormed = true) ?_ ?_
    · exact List.forall_mem_nil _
    · exact Token.Step.wellFormed
  simpa [OperandStack.toList] using h

/-- The operand tokens are postfix notation for the operands. Well-formed expressions are
pushed by the tokens that encode them, above whatever waits. Operand tokens that are fed
to an empty decoder without an error encode the stack that they build. And all that waits
in a decoder is well-formed, whatever it was given before. -/
theorem operandTokens_encode :
    (∀ (decoder : Decoder) (es : List Expression), (∀ e ∈ es, e.wellFormed = true) →
      decoder.Takes (es.flatMap Expression.encode)
        { decoder with stack := .ofList (decoder.stack.toList ++ es) }) ∧
    (∀ (policy : ErrorPolicy) (tokens : List Token),
      (∀ token ∈ tokens, token.isOperand = true) →
      (∀ outcome ∈ (feedAll { policy } tokens).1, outcome.isOk = true) →
      (feedAll { policy } tokens).2.stack.toList.flatMap Expression.encode = tokens) ∧
    ∀ decoder : Decoder, decoder.Reachable → ∀ e ∈ decoder.stack.toList, e.wellFormed = true := by
  refine ⟨?_, ?_, ?_⟩
  · intro decoder es h
    exact takes_flatMap_encode h decoder
  · intro policy tokens hoperand hok
    exact flatMap_encode_feedAll hoperand { policy } hok
  · intro decoder reachable
    exact reachable.wellFormed

/-- The expression `-(var_w[0x0002] - -1)`. -/
def nestedOperand : Expression :=
  .unary .neg (.binary .sub (.memory ⟨.word, 2⟩) (.constant (-1)))

/-- The tokens of a nested operand place it above what waits, and a decoder that has been fed them
encodes back to them. -/
theorem operandTokens_encode_nestedOperand :
    (∀ e ∈ [nestedOperand, .constant 3], e.wellFormed = true) ∧
    Takes { policy := .skip, stack := .ofList [.constant 5] }
      [.memory ⟨.word, 2⟩, .constant (-1), .calculation .sub, .calculation .neg, .constant 3]
      { policy := .skip, stack := .ofList [.constant 5, nestedOperand, .constant 3] } ∧
    (∀ outcome ∈ (feedAll { policy := .abort }
      [.constant 3, .memory ⟨.byte, 9⟩, .calculation .not]).1, outcome.isOk = true) ∧
    (feedAll { policy := .abort } [.constant 3, .memory ⟨.byte, 9⟩,
      .calculation .not]).2.stack.toList.flatMap Expression.encode =
        [.constant 3, .memory ⟨.byte, 9⟩, .calculation .not] ∧
    ∀ e ∈ ((feed { policy := .skip } (.calculation .add)).2.decode
      [.constant 3, .calculation .neg, .operation ⟨2⟩ 0]).2.stack.toList, e.wellFormed = true := by
  have hwellFormed : ∀ e ∈ [nestedOperand, .constant 3], e.wellFormed = true := by decide
  have hoperand : ∀ token ∈ [Token.constant 3, .memory ⟨.byte, 9⟩, .calculation .not],
      token.isOperand = true := by decide
  have hok : ∀ outcome ∈ (feedAll { policy := .abort }
      [.constant 3, .memory ⟨.byte, 9⟩, .calculation .not]).1, outcome.isOk = true := by decide
  refine ⟨hwellFormed, ?_, hok, ?_, ?_⟩
  · exact operandTokens_encode.1 { policy := .skip, stack := .ofList [.constant 5] } _ hwellFormed
  · exact operandTokens_encode.2.1 .abort _ hoperand hok
  · exact operandTokens_encode.2.2 _ (.decode (.feed (.start .skip) _) _)

end Decoder

end EventScript
