/-!
# Calculations

A calculation replaces one or two operands by an operation on them. There are
sixteen, and bytecode knows them by their position in `Calculation.all`. Nothing
is computed here: a calculation becomes part of the expression on the stack.
-/

set_option autoImplicit false

namespace EventScript

/-- An operation on operands. -/
inductive Calculation where
  | add
  | sub
  | mul
  | div
  | mod
  | neg
  | eq
  | gt
  | ge
  | lt
  | le
  | ne
  | and
  | or
  | xor
  | not
  deriving DecidableEq

namespace Calculation

/-- Every calculation, in the order of its numbers. -/
def all : List Calculation :=
  [add, sub, mul, div, mod, neg, eq, gt, ge, lt, le, ne, and, or, xor, not]

/-- The number by which bytecode selects a calculation. -/
def number (op : Calculation) : Nat := op.ctorIdx

/-- The calculation that a number selects. -/
def ofNumber? (n : Int) : Option Calculation :=
  if n < 0 then none else all[n.toNat]?

/-- The word that stands for a calculation in a listing. -/
def mnemonic : Calculation → String
  | add => "ADD"
  | sub => "SUB"
  | mul => "MUL"
  | div => "DIV"
  | mod => "MOD"
  | neg => "NEG"
  | eq => "EQ"
  | gt => "GT"
  | ge => "GE"
  | lt => "LT"
  | le => "LE"
  | ne => "NE"
  | and => "AND"
  | or => "OR"
  | xor => "XOR"
  | not => "NOT"

/-- The name of a calculation in data. -/
def name (op : Calculation) : String := op.mnemonic.toLower

/-- The calculation of a mnemonic, whose ASCII letters may be in either case. -/
def ofMnemonic? (word : String) : Option Calculation :=
  all.find? fun op => op.mnemonic == word.toUpper

/-- The sign that stands for a calculation in an expression. Negation and
subtraction share theirs. -/
def symbol : Calculation → String
  | add => "+"
  | sub => "-"
  | mul => "*"
  | div => "/"
  | mod => "%"
  | neg => "-"
  | eq => "=="
  | gt => ">"
  | ge => ">="
  | lt => "<"
  | le => "<="
  | ne => "!="
  | and => "&"
  | or => "|"
  | xor => "^"
  | not => "!"

/-- Whether a calculation takes one operand: negation and complement do. -/
def isUnary : Calculation → Bool
  | neg | not => true
  | _ => false

/-- How many operands a calculation takes. -/
def arity (op : Calculation) : Nat := if op.isUnary then 1 else 2

/-- The position of a calculation among all is its number. -/
theorem number_getElem_all (k : Nat) (h : k < all.length) : all[k].number = k := by
  have every : ∀ i : Fin 16, all[i.val].number = i.val := by decide
  exact every ⟨k, h⟩

/-- Numbers and calculations correspond. -/
theorem ofNumber?_eq_some_iff (n : Int) (op : Calculation) :
    ofNumber? n = some op ↔ n = op.number := by
  constructor
  · intro h
    unfold ofNumber? at h
    split at h
    · simp at h
    · obtain ⟨hk, rfl⟩ := List.getElem?_eq_some_iff.mp h
      rw [number_getElem_all]
      omega
  · rintro rfl
    cases op <;> rfl

end Calculation

end EventScript
