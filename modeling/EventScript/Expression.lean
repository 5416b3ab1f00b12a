import EventScript.Variable
import EventScript.Calculation

/-!
# Expressions

What a script pushes is not evaluated while it is decoded: an operand is an
expression, built of constants, variables and calculations. Its text shows where
every binary calculation begins and ends.
-/

set_option autoImplicit false

namespace EventScript

/-- An operand. -/
inductive Expression where
  | constant (value : Int32)
  | memory (v : Variable)
  | unary (op : Calculation) (operand : Expression)
  | binary (op : Calculation) (left right : Expression)
  deriving DecidableEq

/-- What sort of operand an expression is. -/
inductive ExpressionKind where
  | constant
  | memory
  | computed
  deriving DecidableEq

/-- The name of a sort of operand in messages and data. -/
def ExpressionKind.name : ExpressionKind → String
  | constant => "constant"
  | memory => "variable"
  | computed => "computed"

namespace Expression

/-- What sort of operand an expression is. -/
def kind : Expression → ExpressionKind
  | constant _ => .constant
  | memory _ => .memory
  | unary _ _ | binary _ _ _ => .computed

/-- The value of an expression that is a constant. -/
def constant? : Expression → Option Int32
  | constant value => some value
  | _ => none

/-- An expression in text: a unary calculation is its sign before its operand, a
binary one stands in parentheses. -/
def text : Expression → String
  | constant value => Numeral.ofInt value.toInt
  | memory v => v.text
  | unary op operand => op.symbol ++ operand.text
  | binary op left right => "(" ++ left.text ++ " " ++ op.symbol ++ " " ++ right.text ++ ")"

/-- Whether every calculation in an expression has as many operands as it takes. -/
def wellFormed : Expression → Bool
  | constant _ | memory _ => true
  | unary op operand => op.isUnary && operand.wellFormed
  | binary op left right => !op.isUnary && left.wellFormed && right.wellFormed

/-- Only a constant has a value. -/
theorem constant?_eq_some_iff {e : Expression} {value : Int32} :
    e.constant? = some value ↔ e = constant value := by
  cases e <;> simp [constant?]

end Expression

end EventScript
