import EventScript.DecodeError

/-!
# The operand stack

Operands wait on a stack for the instruction that takes them. Decoding steps are
computations that may change the stack and may fail. An operand that a step has
popped stays popped when the step fails afterwards.
-/

set_option autoImplicit false

namespace EventScript

/-- The operands that wait for an instruction. -/
structure OperandStack where
  /-- The operands, the one pushed last first. -/
  topFirst : List Expression := []
  deriving DecidableEq

namespace OperandStack

/-- The stack without operands. -/
def empty : OperandStack := ⟨[]⟩

instance : Inhabited OperandStack := ⟨empty⟩

/-- How many operands wait. -/
def size (stack : OperandStack) : Nat := stack.topFirst.length

/-- Whether no operand waits. -/
def isEmpty (stack : OperandStack) : Bool := stack.topFirst.isEmpty

/-- Places an operand on top. -/
def push (stack : OperandStack) (operand : Expression) : OperandStack :=
  ⟨operand :: stack.topFirst⟩

/-- The operand on top. -/
def top? (stack : OperandStack) : Option Expression := stack.topFirst.head?

/-- The operands in the order in which they were pushed. -/
def toList (stack : OperandStack) : List Expression := stack.topFirst.reverse

/-- The stack onto which these operands were pushed in order. -/
def ofList (operands : List Expression) : OperandStack := ⟨operands.reverse⟩

/-- Nothing is on the empty stack. -/
@[simp]
theorem toList_empty : empty.toList = [] := rfl

/-- What is pushed comes last from the bottom up. -/
@[simp]
theorem toList_push (stack : OperandStack) (operand : Expression) :
    (stack.push operand).toList = stack.toList ++ [operand] := by
  simp [toList, push]

/-- The stack of operands holds these operands. -/
@[simp]
theorem toList_ofList (operands : List Expression) : (ofList operands).toList = operands := by
  simp [toList, ofList]

/-- A stack is the stack of its operands. -/
@[simp]
theorem ofList_toList (stack : OperandStack) : ofList stack.toList = stack := by
  simp [toList, ofList]

/-- There are as many operands on a stack as its size says. -/
@[simp]
theorem length_toList (stack : OperandStack) : stack.toList.length = stack.size := by
  simp [toList, size]

/-- The empty stack has no size. -/
@[simp]
theorem size_empty : empty.size = 0 := rfl

/-- To push an operand adds one to the size. -/
@[simp]
theorem size_push (stack : OperandStack) (operand : Expression) :
    (stack.push operand).size = stack.size + 1 := rfl

end OperandStack

/-- A decoding step: it may take operands from the stack and push others, and it
may fail. -/
abbrev DecodeM (α : Type) : Type := ExceptT DecodeError (StateM OperandStack) α

namespace DecodeM

/-- What a step gives on a stack, and the stack that it leaves. -/
def runOn {α : Type} (step : DecodeM α) (stack : OperandStack) :
    Except DecodeError α × OperandStack :=
  (step.run.run stack).run

/-- Pushes an operand. -/
def push (operand : Expression) : DecodeM Unit :=
  modify fun stack => stack.push operand

/-- Fails if fewer than `needed` operands wait, and touches none. -/
def require (opcode : Opcode) (needed : Nat) : DecodeM Unit := do
  let available := (← get).size
  if available < needed then
    throw (.stackUnderflow opcode needed available)

/-- Pops the topmost operand for an opcode. -/
def pop (opcode : Opcode) : DecodeM Expression := do
  match (← get).topFirst with
  | [] => throw (.stackUnderflow opcode 1 0)
  | operand :: rest =>
    set (⟨rest⟩ : OperandStack)
    return operand

/-- Pops the topmost operand, which has to be a constant; one that is not is popped
all the same. -/
def popConstant (opcode : Opcode) : DecodeM Int32 := do
  let operand ← pop opcode
  match operand with
  | .constant value => return value
  | _ => throw (.invalidOperand opcode operand)

/-- To give a value leaves the stack as it is. -/
@[simp]
theorem runOn_pure {α : Type} (value : α) (stack : OperandStack) :
    (pure value : DecodeM α).runOn stack = (.ok value, stack) := rfl

/-- A step and then another: a failure of the first is that of both. -/
theorem runOn_bind {α β : Type} (first : DecodeM α) (next : α → DecodeM β)
    (stack : OperandStack) :
    (first >>= next).runOn stack =
      match first.runOn stack with
      | (.ok value, stack) => (next value).runOn stack
      | (.error error, stack) => (.error error, stack) := by
  change (match (first.run.run stack).run with
    | (result, stack) => (ExceptT.bindCont next result).run stack) = _
  rcases h : first.runOn stack with ⟨_ | _, _⟩ <;>
    simp only [runOn] at h <;> rw [h] <;> rfl

/-- To push an operand never fails. -/
@[simp]
theorem runOn_push (operand : Expression) (stack : OperandStack) :
    (push operand).runOn stack = (.ok (), stack.push operand) := rfl

/-- Enough operands pass, and too few are reported with their number. -/
theorem runOn_require (opcode : Opcode) (needed : Nat) (stack : OperandStack) :
    (require opcode needed).runOn stack =
      (if stack.size < needed then .error (.stackUnderflow opcode needed stack.size) else .ok (),
        stack) := by
  change (if stack.size < needed then throw (.stackUnderflow opcode needed stack.size)
    else pure () : DecodeM Unit).runOn stack = _
  split <;> rfl

/-- To pop the empty stack fails and leaves it empty. -/
@[simp]
theorem runOn_pop_empty (opcode : Opcode) :
    (pop opcode).runOn .empty = (.error (.stackUnderflow opcode 1 0), .empty) := rfl

/-- What was pushed last is popped first. -/
@[simp]
theorem runOn_pop_push (opcode : Opcode) (stack : OperandStack) (operand : Expression) :
    (pop opcode).runOn (stack.push operand) = (.ok operand, stack) := rfl

end DecodeM

end EventScript
