import EventScript.OpcodeTable
import EventScript.Script.Basic

/-!
# Decoding scripts

Tokens are applied one after another to the operand stack. `Token.decode` applies
one of them and knows nothing of policies; `Script.decodeFrom` goes through a
list of tokens from any stack, and `Script.decode` does so from the empty one. A
`Decoder` keeps its stack between calls, so that it can also be fed token by
token.
-/

set_option autoImplicit false

namespace EventScript

/-- Replaces the topmost operands by a calculation on them; the one pushed last is
the right-hand one. Too few operands are left where they are. -/
def Calculation.apply (op : Calculation) : DecodeM Unit := do
  DecodeM.require .calculate op.arity
  if op.isUnary then
    let operand ← DecodeM.pop .calculate
    DecodeM.push (.unary op operand)
  else
    let right ← DecodeM.pop .calculate
    let left ← DecodeM.pop .calculate
    DecodeM.push (.binary op left right)

/-- Applies a token, which gives an instruction if it decodes one. -/
def Token.decode : Token → DecodeM (Option Instruction)
  | constant value => do
    DecodeM.push (.constant value)
    return none
  | memory v => do
    DecodeM.push (.memory v)
    return none
  | calculation op => do
    op.apply
    return none
  | operation opcode parameter => some <$> OpcodeTable.decode opcode parameter

namespace Script

/-- Decodes the tokens from position `index` on, with the operands that those before
them left. Gives the stack after the last token that was applied as well, be it
the one that failed. -/
def decodeFrom (policy : ErrorPolicy) (index : Nat) (stack : OperandStack) :
    List Token → Except ScriptError Script × OperandStack
  | [] => (.ok { leftover := stack.size }, stack)
  | token :: rest =>
    match token.decode.runOn stack with
    | (.ok none, stack) => decodeFrom policy (index + 1) stack rest
    | (.ok (some i), stack) =>
      let (result, stack) := decodeFrom policy (index + 1) stack rest
      (result.map (consInstruction i), stack)
    | (.error cause, stack) =>
      if policy.stopsAt cause then (.error { index, token, cause }, stack)
      else
        let (result, stack) := decodeFrom policy (index + 1) stack rest
        (result.map (consDiagnostic { index, error := cause }), stack)

/-- Decodes a script by itself. -/
def decode (policy : ErrorPolicy) (tokens : List Token) : Except ScriptError Script :=
  (decodeFrom policy 0 .empty tokens).1

/-- Decodes scripts that have nothing to do with each other, each by itself. -/
def decodeAll (policy : ErrorPolicy) (scripts : List (List Token)) :
    List (Except ScriptError Script) :=
  scripts.map (decode policy)

end Script

/-- A policy together with the operands that wait. -/
structure Decoder where
  policy : ErrorPolicy := .abort
  stack : OperandStack := .empty
  deriving DecidableEq

namespace Decoder

/-- Applies one token. The policy plays no part. -/
def feed (decoder : Decoder) (token : Token) :
    Except DecodeError (Option Instruction) × Decoder :=
  let (result, stack) := token.decode.runOn decoder.stack
  (result, { decoder with stack })

/-- Forgets the operands that wait and decodes a script. What the script leaves on
the stack, or has there when it fails, waits afterwards. -/
def decode (decoder : Decoder) (tokens : List Token) :
    Except ScriptError Script × Decoder :=
  let (result, stack) := Script.decodeFrom decoder.policy 0 .empty tokens
  (result, { decoder with stack })

/-- What waits in a decoder makes no difference to a script. -/
theorem decode_fst (decoder : Decoder) (tokens : List Token) :
    (decoder.decode tokens).1 = Script.decode decoder.policy tokens := rfl

end Decoder

end EventScript
