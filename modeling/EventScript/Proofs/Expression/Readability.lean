import EventScript.Expression
import EventScript.Proofs.Text.Delimited

/-!
# Reading expressions back

The text of an expression shows its structure: the first character tells what sort of
expression it is, parentheses tell where a calculation on two operands begins and ends, and
everything else ends where its text does. Only a minus sign has two readings, as the sign of
a constant and as a negation. With the signs of all constants written as negations, two
expressions have the same text only if they are the same.
-/

set_option autoImplicit false

namespace EventScript

/-- An expression whose constants have no sign. -/
inductive UnsignedExpression where
  | constant (value : Nat)
  | memory (v : Variable)
  | unary (op : Calculation) (operand : UnsignedExpression)
  | binary (op : Calculation) (left right : UnsignedExpression)
  deriving DecidableEq

/-- The expression with each negative constant written as the negation of its magnitude. -/
def Expression.unsigned : Expression → UnsignedExpression
  | constant value =>
    if value.toInt < 0 then .unary .neg (.constant value.toInt.natAbs)
    else .constant value.toInt.natAbs
  | memory v => .memory v
  | unary op operand => .unary op operand.unsigned
  | binary op left right => .binary op left.unsigned right.unsigned

/-- The expression of the same form, with constants of the same values if these fit. -/
def Expression.ofUnsigned : UnsignedExpression → Expression
  | .constant value => constant (Int32.ofInt value)
  | .memory v => memory v
  | .unary op operand => unary op (ofUnsigned operand)
  | .binary op left right => binary op (ofUnsigned left) (ofUnsigned right)

/-- Whether no constant of an expression is negative. -/
def Expression.nonNegative : Expression → Bool
  | constant value => 0 ≤ value.toInt
  | memory _ => true
  | unary _ operand => operand.nonNegative
  | binary _ left right => left.nonNegative && right.nonNegative

namespace UnsignedExpression

/-- The characters of the text of an expression. -/
def chars : UnsignedExpression → List Char
  | constant value => Nat.toDigits 10 value
  | memory v => v.text.toList
  | unary op operand => op.symbol.toList ++ operand.chars
  | binary op left right =>
    '(' :: left.chars ++ ' ' :: op.symbol.toList ++ ' ' :: right.chars ++ [')']

/-- Whether every calculation in an expression has as many operands as it takes. -/
def wellFormed : UnsignedExpression → Bool
  | constant _ | memory _ => true
  | unary op operand => op.isUnary && operand.wellFormed
  | binary op left right => !op.isUnary && left.wellFormed && right.wellFormed

/-- How an expression is built. -/
inductive Form where
  | constant
  | memory
  | unary
  | binary

/-- How an expression is built. -/
def form : UnsignedExpression → Form
  | constant _ => .constant
  | memory _ => .memory
  | unary _ _ => .unary
  | binary _ _ _ => .binary

/-- How an expression is built whose text begins with a character. -/
def Form.ofFirst (c : Char) : Form :=
  if c.isDigit then .constant else if c = 'v' then .memory else if c = '(' then .binary else .unary

end UnsignedExpression

/-! ## Symbols and variables -/

/-- Only negation and complement take a single operand. -/
theorem Calculation.eq_neg_or_eq_not {op : Calculation} (h : op.isUnary = true) :
    op = .neg ∨ op = .not := by
  cases op <;> cases h
  · exact .inl rfl
  · exact .inr rfl

/-- The sign of a unary calculation is told from what follows it, since it is one character. -/
theorem Calculation.unary_symbol_append_inj {op op' : Calculation} {rest rest' : List Char}
    (h : op.isUnary = true) (h' : op'.isUnary = true)
    (hsame : op.symbol.toList ++ rest = op'.symbol.toList ++ rest') : op = op' ∧ rest = rest' := by
  rcases eq_neg_or_eq_not h with rfl | rfl <;> rcases eq_neg_or_eq_not h' with rfl | rfl
  · exact ⟨rfl, List.append_cancel_left hsame⟩
  · cases (List.cons.inj hsame).1
  · cases (List.cons.inj hsame).1
  · exact ⟨rfl, List.append_cancel_left hsame⟩

/-- Calculations on two operands are found by their symbols. -/
theorem Calculation.find?_symbol {op : Calculation} (h : op.isUnary = false) :
    all.find? (fun other => !other.isUnary && other.symbol == op.symbol) = some op := by
  cases op <;> cases h <;> rfl

/-- No sign has a blank in it. -/
theorem Calculation.blank_not_mem_symbol (op : Calculation) : ' ' ∉ op.symbol.toList := by
  cases op <;> decide

/-- The sign of a binary calculation is told from what follows it by the blank behind it. -/
theorem Calculation.binary_symbol_append_inj {op op' : Calculation} {rest rest' : List Char}
    (h : op.isUnary = false) (h' : op'.isUnary = false)
    (hsame : op.symbol.toList ++ ' ' :: rest = op'.symbol.toList ++ ' ' :: rest') :
    op = op' ∧ rest = rest' := by
  obtain ⟨hsymbol, hrest⟩ :=
    Text.append_cons_inj op.blank_not_mem_symbol op'.blank_not_mem_symbol hsame
  refine ⟨?_, hrest⟩
  have hfind := find?_symbol h
  rw [String.toList_inj.mp hsymbol, find?_symbol h'] at hfind
  exact (Option.some.inj hfind).symm

/-- Kinds of variables are found by their stems. -/
theorem VariableKind.find?_stem (kind : VariableKind) :
    all.find? (fun other => other.stem == kind.stem) = some kind := by
  cases kind <;> rfl

/-- No stem of a variable has a bracket in it. -/
theorem VariableKind.bracket_not_mem_stem (kind : VariableKind) : '[' ∉ kind.stem.toList := by
  cases kind <;> decide

/-- Every stem of a variable begins alike. -/
theorem VariableKind.exists_stem_eq_cons (kind : VariableKind) :
    ∃ cs, kind.stem.toList = 'v' :: cs := by
  cases kind <;> exact ⟨_, rfl⟩

/-- A variable is its stem and its address in brackets, in front of what follows. -/
theorem Variable.text_append (v : Variable) (rest : List Char) : v.text.toList ++ rest =
    v.kind.stem.toList ++ '[' :: ((Numeral.hex 4 v.address.toNat).toList ++ ']' :: rest) := by
  simp [text]

/-- A variable is cut behind its bracket. -/
theorem Variable.text_append_inj {v w : Variable} {rest rest' : List Char}
    (h : v.text.toList ++ rest = w.text.toList ++ rest') : v = w ∧ rest = rest' := by
  have hbracket : ∀ n, ']' ∉ (Numeral.hex 4 n).toList := by
    intro n hmem
    rcases Numeral.eq_or_isDigit_of_mem_hex hmem with hmark | ⟨d, hdigit⟩
    · cases hmark
    · rw [← Numeral.digit?_eq_some_iff (Nat.le_refl 16)] at hdigit
      cases hdigit
  rw [text_append, text_append] at h
  obtain ⟨hstem, hbehind⟩ := Text.append_cons_inj v.kind.bracket_not_mem_stem
    w.kind.bracket_not_mem_stem h
  obtain ⟨hhex, hrest⟩ := Text.append_cons_inj (hbracket _) (hbracket _) hbehind
  have hkind : v.kind = w.kind := by
    have hfind := v.kind.find?_stem
    rw [String.toList_inj.mp hstem, w.kind.find?_stem] at hfind
    exact (Option.some.inj hfind).symm
  have haddress : v.address = w.address :=
    UInt16.toNat_inj.mp (Numeral.hex_injective 4 (String.toList_inj.mp hhex))
  obtain ⟨kind, address⟩ := v
  cases hkind
  cases haddress
  exact ⟨rfl, hrest⟩

/-! ## Unsigned expressions -/

namespace UnsignedExpression

variable {e e' : UnsignedExpression} {rest rest' : List Char}

/-- The first character of an expression tells its form. -/
theorem exists_chars_eq_cons (h : e.wellFormed = true) :
    ∃ c cs, e.chars = c :: cs ∧ Form.ofFirst c = e.form := by
  cases e with
  | constant value =>
    obtain ⟨c, cs, hcs, hdigit⟩ := Numeral.exists_toDigits_eq_cons value
    exact ⟨c, cs, hcs, if_pos hdigit⟩
  | memory v =>
    obtain ⟨cs, hcs⟩ := v.kind.exists_stem_eq_cons
    have htext := v.text_append []
    rw [List.append_nil, hcs] at htext
    exact ⟨'v', _, htext, rfl⟩
  | unary op operand =>
    simp only [wellFormed, Bool.and_eq_true] at h
    rcases Calculation.eq_neg_or_eq_not h.1 with rfl | rfl
    · exact ⟨'-', operand.chars, rfl, rfl⟩
    · exact ⟨'!', operand.chars, rfl, rfl⟩
  | binary op left right => exact ⟨'(', _, rfl, rfl⟩

/-- The first character tells how an expression is built. -/
theorem form_eq_of_chars_append_eq (h : e.wellFormed = true) (h' : e'.wellFormed = true)
    (hsame : e.chars ++ rest = e'.chars ++ rest') : e.form = e'.form := by
  obtain ⟨c, cs, hcs, hform⟩ := exists_chars_eq_cons h
  obtain ⟨c', cs', hcs', hform'⟩ := exists_chars_eq_cons h'
  rw [hcs, hcs', List.cons_append, List.cons_append, List.cons.injEq] at hsame
  rw [← hform, ← hform', hsame.1]

/-- In front of a character that is no digit, an expression is read back from its text. -/
theorem chars_append_inj (h : e.wellFormed = true) (h' : e'.wellFormed = true)
    (hrest : Text.Ends Char.isDigit rest) (hrest' : Text.Ends Char.isDigit rest')
    (hsame : e.chars ++ rest = e'.chars ++ rest') : e = e' ∧ rest = rest' := by
  induction e generalizing e' rest rest' with
  | constant value =>
    cases e' with
    | constant value' =>
      obtain ⟨rfl, hrests⟩ := Numeral.toDigits_append_inj hrest hrest' hsame
      exact ⟨rfl, hrests⟩
    | _ => cases form_eq_of_chars_append_eq h h' hsame
  | memory v =>
    cases e' with
    | memory w =>
      obtain ⟨rfl, hrests⟩ := Variable.text_append_inj hsame
      exact ⟨rfl, hrests⟩
    | _ => cases form_eq_of_chars_append_eq h h' hsame
  | unary op operand ih =>
    cases e' with
    | unary op' operand' =>
      simp only [wellFormed, Bool.and_eq_true] at h h'
      rw [chars, chars, List.append_assoc, List.append_assoc] at hsame
      obtain ⟨rfl, hbehind⟩ := Calculation.unary_symbol_append_inj h.1 h'.1 hsame
      obtain ⟨rfl, hrests⟩ := ih h.2 h'.2 hrest hrest' hbehind
      exact ⟨rfl, hrests⟩
    | _ => cases form_eq_of_chars_append_eq h h' hsame
  | binary op left right ihLeft ihRight =>
    cases e' with
    | binary op' left' right' =>
      simp only [wellFormed, Bool.and_eq_true, Bool.not_eq_true'] at h h'
      simp only [chars, List.append_assoc, List.cons_append, List.nil_append,
        List.cons.injEq, true_and] at hsame
      have hblank : ∀ cs, Text.Ends Char.isDigit (' ' :: cs) := fun cs => .cons (by decide) cs
      have hparenthesis : ∀ cs, Text.Ends Char.isDigit (')' :: cs) := fun cs => .cons (by decide) cs
      obtain ⟨rfl, hbehind⟩ := ihLeft h.1.2 h'.1.2 (hblank _) (hblank _) hsame
      obtain ⟨rfl, hright⟩ :=
        Calculation.binary_symbol_append_inj h.1.1 h'.1.1 (List.cons.inj hbehind).2
      obtain ⟨rfl, hclose⟩ := ihRight h.2 h'.2 (hparenthesis _) (hparenthesis _) hright
      exact ⟨rfl, (List.cons.inj hclose).2⟩
    | _ => cases form_eq_of_chars_append_eq h h' hsame

/-- Well-formed expressions with the same characters are the same. -/
theorem eq_of_chars_eq (h : e.wellFormed = true) (h' : e'.wellFormed = true)
    (hsame : e.chars = e'.chars) : e = e' :=
  (chars_append_inj h h' (.nil _) (.nil _) (congrArg (· ++ []) hsame)).1

end UnsignedExpression

/-! ## Expressions -/

namespace Expression

/-- The text of an expression is that of the expression with the signs of its negative constants set
apart. -/
theorem toList_text (e : Expression) : e.text.toList = e.unsigned.chars := by
  induction e with
  | constant value =>
    rw [text, Numeral.toList_ofInt, unsigned]
    split
    · rfl
    · rfl
  | memory v => rfl
  | unary op operand ih => simp [text, unsigned, UnsignedExpression.chars, ih]
  | binary op left right ihLeft ihRight =>
    simp [text, unsigned, UnsignedExpression.chars, ihLeft, ihRight]

/-- To set the signs of constants apart keeps an expression well-formed. -/
theorem wellFormed_unsigned (e : Expression) : e.unsigned.wellFormed = e.wellFormed := by
  induction e with
  | constant value =>
    rw [unsigned]
    split
    · rfl
    · rfl
  | memory v => rfl
  | unary op operand ih => rw [unsigned, UnsignedExpression.wellFormed, ih, wellFormed]
  | binary op left right ihLeft ihRight =>
    rw [unsigned, UnsignedExpression.wellFormed, ihLeft, ihRight, wellFormed]

/-- Without negative constants nothing is lost. -/
theorem ofUnsigned_unsigned {e : Expression} (h : e.nonNegative = true) :
    ofUnsigned e.unsigned = e := by
  induction e with
  | constant value =>
    have hle : 0 ≤ value.toInt := of_decide_eq_true h
    rw [unsigned, if_neg (Int.not_lt.mpr hle), ofUnsigned, Int.natAbs_of_nonneg hle,
      Int32.ofInt_toInt]
  | memory v => rfl
  | unary op operand ih => rw [unsigned, ofUnsigned, ih h]
  | binary op left right ihLeft ihRight =>
    simp only [nonNegative, Bool.and_eq_true] at h
    rw [unsigned, ofUnsigned, ihLeft h.1, ihRight h.2]

/-- The text of an expression is ambiguous about minus signs and about nothing else: two
expressions in which every calculation has as many operands as it takes have the same text
if and only if they are the same when each negative constant is written as a negation, and
so only if they are the same when neither has a negative constant. -/
theorem text_eq_iff_unsigned_eq {e e' : Expression} (h : e.wellFormed = true)
    (h' : e'.wellFormed = true) :
    (e.text = e'.text ↔ e.unsigned = e'.unsigned) ∧
      (e.nonNegative = true → e'.nonNegative = true → e.text = e'.text → e = e') := by
  have htext : e.text = e'.text ↔ e.unsigned = e'.unsigned := by
    rw [← String.toList_inj, toList_text, toList_text]
    constructor
    · apply UnsignedExpression.eq_of_chars_eq
      · rw [wellFormed_unsigned, h]
      · rw [wellFormed_unsigned, h']
    · exact congrArg UnsignedExpression.chars
  refine ⟨htext, ?_⟩
  intro hpositive hpositive' hsame
  have hunsigned := congrArg ofUnsigned (htext.mp hsame)
  rwa [ofUnsigned_unsigned hpositive, ofUnsigned_unsigned hpositive'] at hunsigned

/-- The expression `(-5 - -2147483648)`, in which the first minus sign is a negation and the
last is the sign of the least constant. -/
def negatedFive : Expression :=
  .binary .sub (.unary .neg (.constant 5)) (.constant (-2147483648))

/-- The same, with the first minus sign as that of a constant. -/
def minusFive : Expression := .binary .sub (.constant (-5)) (.constant (-2147483648))

/-- The expression `(1 - (2 >= 3))`. -/
def comparedBefore : Expression :=
  .binary .sub (.constant 1) (.binary .ge (.constant 2) (.constant 3))

/-- The expression `((1 - 2) >= 3)`. -/
def comparedAfter : Expression :=
  .binary .ge (.binary .sub (.constant 1) (.constant 2)) (.constant 3)

/-- Five negated and minus five have the same text, and a comparison keeps its sides apart. -/
theorem text_eq_iff_unsigned_eq_minusFive :
    negatedFive.wellFormed = true ∧ minusFive.wellFormed = true ∧ negatedFive ≠ minusFive ∧
    negatedFive.unsigned = minusFive.unsigned ∧ negatedFive.text = minusFive.text ∧
    comparedBefore.nonNegative = true ∧ comparedAfter.nonNegative = true ∧
    comparedBefore.text ≠ comparedAfter.text := by
  have hnegated : negatedFive.wellFormed = true := by decide
  have hminus : minusFive.wellFormed = true := by decide
  have hunsigned : negatedFive.unsigned = minusFive.unsigned := by decide
  have hbefore : comparedBefore.nonNegative = true := by decide
  have hafter : comparedAfter.nonNegative = true := by decide
  refine ⟨hnegated, hminus, by decide, hunsigned,
    (text_eq_iff_unsigned_eq hnegated hminus).1.mpr hunsigned, hbefore, hafter, ?_⟩
  intro hsame
  have heq := (text_eq_iff_unsigned_eq (by decide) (by decide)).2 hbefore hafter hsame
  exact absurd heq (by decide)

end Expression

end EventScript
