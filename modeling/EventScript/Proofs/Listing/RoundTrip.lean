import EventScript.Proofs.Listing.Grammar
import Mathlib.Data.List.TakeWhile

/-!
# Reading back what was written

Of the tokens in a listing only some operations are not read as they were written:
those of the opcodes that place operands. Their names stand for operands in a listing,
so they come back as the operands that their parameters describe, if they describe any.
-/

set_option autoImplicit false

namespace EventScript

open EventScript.Numeral (Denotes)
open EventScript.Listing

/-- The opcodes that place operands on the stack. -/
def Opcode.operands : List Opcode :=
  [calculate, pushConstant, pushByte, pushWord, pushLong, pushSignedByte, pushSignedWord,
    pushSignedLong]

namespace Token

/-- `ReadsBackAs token result`: the line that is written for a token is read as
`result`. -/
inductive ReadsBackAs : Token → Token → Prop where
  | constant (value : Int32) : ReadsBackAs (.constant value) (.constant value)
  | memory (v : Variable) : ReadsBackAs (.memory v) (.memory v)
  | calculation (op : Calculation) : ReadsBackAs (.calculation op) (.calculation op)
  | operation {opcode : Opcode} {parameter : Int32} (h : opcode ∉ Opcode.operands) :
      ReadsBackAs (.operation opcode parameter) (.operation opcode parameter)
  | pushConstant (value : Int32) :
      ReadsBackAs (.operation .pushConstant value) (.constant value)
  | push {kind : VariableKind} {parameter : Int32} {address : UInt16}
      (h : parameter.toInt = address.toNat) :
      ReadsBackAs (.operation kind.pushOpcode parameter) (.memory { kind, address })
  | calculate {parameter : Int32} {op : Calculation} (h : parameter.toInt = op.number) :
      ReadsBackAs (.operation .calculate parameter) (.calculation op)

/-- An operation of an opcode that places an operand, with a parameter that is no address
or no calculation. -/
inductive Unreadable : Token → Prop where
  | push {kind : VariableKind} {parameter : Int32}
      (h : parameter.toInt < 0 ∨ 65535 < parameter.toInt) :
      Unreadable (.operation kind.pushOpcode parameter)
  | calculate {parameter : Int32} (h : parameter.toInt < 0 ∨ 15 < parameter.toInt) :
      Unreadable (.operation .calculate parameter)

/-- An operation whose line stands for an operand. -/
def NamesOperand (token : Token) : Prop :=
  ∃ opcode ∈ Opcode.operands, ∃ parameter, token = .operation opcode parameter

/-- The opcode whose name begins the line of a token. -/
def opcode : Token → Opcode
  | constant _ => .pushConstant
  | memory v => v.kind.pushOpcode
  | calculation _ => .calculate
  | operation opcode _ => opcode

/-- A token is written with the name of its opcode. -/
theorem mnemonic_eq_name (token : Token) : token.mnemonic = token.opcode.name := by
  cases token <;> rfl

/-- The opcodes that push variables are among those of operands. -/
theorem pushOpcode_mem_operands (kind : VariableKind) : kind.pushOpcode ∈ Opcode.operands := by
  cases kind <;> decide

/-- The opcodes of operands are those that calculate, that push a constant and that push a variable
of some kind. -/
theorem mem_operands_iff (opcode : Opcode) :
    opcode ∈ Opcode.operands ↔
      opcode = .calculate ∨ opcode = .pushConstant ∨ ∃ kind : VariableKind,
        opcode = kind.pushOpcode := by
  constructor
  · intro h
    simp only [Opcode.operands, List.mem_cons, List.not_mem_nil, or_false] at h
    rcases h with h | h | h | h | h | h | h | h
    · exact .inl h
    · exact .inr (.inl h)
    · exact .inr (.inr ⟨.byte, h⟩)
    · exact .inr (.inr ⟨.word, h⟩)
    · exact .inr (.inr ⟨.long, h⟩)
    · exact .inr (.inr ⟨.signedByte, h⟩)
    · exact .inr (.inr ⟨.signedWord, h⟩)
    · exact .inr (.inr ⟨.signedLong, h⟩)
  · rintro (rfl | rfl | ⟨kind, rfl⟩)
    · decide
    · decide
    · exact pushOpcode_mem_operands kind

/-- An operation with the opcode of a variable is read back as the variable whose address is its
parameter. -/
theorem readsBackAs_push_iff (kind : VariableKind) (parameter : Int32) (result : Token) :
    ReadsBackAs (.operation kind.pushOpcode parameter) result ↔
      ∃ address : UInt16, parameter.toInt = address.toNat ∧ result = .memory { kind, address } := by
  constructor
  · intro h
    generalize hopcode : kind.pushOpcode = opcode at h
    cases h with
    | operation hnot => exact absurd (hopcode ▸ pushOpcode_mem_operands kind) hnot
    | pushConstant => cases kind <;> cases hopcode
    | @push other _ address haddress =>
      have hkind : kind = other := by
        have hother := (VariableKind.ofPushOpcode?_eq_some_iff _ other).mpr rfl
        rw [← hopcode, (VariableKind.ofPushOpcode?_eq_some_iff _ kind).mpr rfl] at hother
        exact Option.some.inj hother
      subst hkind
      exact ⟨address, haddress, rfl⟩
    | calculate => cases kind <;> cases hopcode
  · rintro ⟨address, haddress, rfl⟩
    exact .push haddress

/-- An operation with the opcode of calculations is read back as the calculation whose number is its
parameter. -/
theorem readsBackAs_calculate_iff (parameter : Int32) (result : Token) :
    ReadsBackAs (.operation .calculate parameter) result ↔
      ∃ op : Calculation, parameter.toInt = op.number ∧ result = .calculation op := by
  constructor
  · intro h
    generalize hopcode : Opcode.calculate = opcode at h
    cases h with
    | operation hnot =>
      subst hopcode
      exact absurd (by decide) hnot
    | pushConstant => cases hopcode
    | @push kind => cases kind <;> cases hopcode
    | @calculate _ op hop => exact ⟨op, hop, rfl⟩
  · rintro ⟨op, hop, rfl⟩
    exact .calculate hop

/-- An operation with the opcode of constants is read back as the constant that is its parameter. -/
theorem readsBackAs_pushConstant_iff (parameter : Int32) (result : Token) :
    ReadsBackAs (.operation .pushConstant parameter) result ↔ result = .constant parameter := by
  constructor
  · intro h
    generalize hopcode : Opcode.pushConstant = opcode at h
    cases h with
    | operation hnot =>
      subst hopcode
      exact absurd (by decide) hnot
    | pushConstant => rfl
    | @push kind => cases kind <;> cases hopcode
    | calculate => cases hopcode
  · rintro rfl
    exact .pushConstant parameter

/-- A token that names no operand is read back as itself and nothing else. -/
theorem readsBackAs_iff_eq {token : Token} (h : ¬ token.NamesOperand) (result : Token) :
    ReadsBackAs token result ↔ result = token := by
  constructor
  · intro hresult
    cases hresult with
    | constant => rfl
    | memory => rfl
    | calculation => rfl
    | operation => rfl
    | pushConstant value => exact absurd ⟨_, by decide, value, rfl⟩ h
    | @push _ parameter =>
      exact absurd ⟨_, pushOpcode_mem_operands _, parameter, rfl⟩ h
    | @calculate parameter => exact absurd ⟨_, by decide, parameter, rfl⟩ h
  · rintro rfl
    cases result with
    | constant value => exact .constant value
    | memory v => exact .memory v
    | calculation op => exact .calculation op
    | operation opcode parameter =>
      exact .operation fun hmem => h ⟨opcode, hmem, parameter, rfl⟩

/-- The numbers of calculations are those from zero to fifteen. -/
theorem exists_number_eq_iff (n : Int) :
    (∃ op : Calculation, n = op.number) ↔ 0 ≤ n ∧ n ≤ 15 := by
  have hlength : Calculation.all.length = 16 := rfl
  constructor
  · rintro ⟨op, rfl⟩
    cases op <;> decide
  · rintro ⟨hlow, hhigh⟩
    have hlt : n.toNat < Calculation.all.length := by omega
    refine ⟨Calculation.all[n.toNat], ?_⟩
    rw [Calculation.number_getElem_all]
    omega

/-- A token is read back as something, or else its parameter is out of range. -/
theorem exists_readsBackAs_iff (token : Token) :
    (∃ result, ReadsBackAs token result) ↔ ¬ Unreadable token := by
  constructor
  · rintro ⟨result, hresult⟩ hunreadable
    cases hunreadable with
    | push hrange =>
      obtain ⟨address, haddress, -⟩ := (readsBackAs_push_iff _ _ _).mp hresult
      have hin := (uint16_wraps.exists_eq_toNat_iff _).mp ⟨address, haddress⟩
      omega
    | calculate hrange =>
      obtain ⟨op, hop, -⟩ := (readsBackAs_calculate_iff _ _).mp hresult
      have hin := (exists_number_eq_iff _).mp ⟨op, hop⟩
      omega
  · intro h
    by_cases hoperand : token.NamesOperand
    · obtain ⟨opcode, hmem, parameter, rfl⟩ := hoperand
      rcases (mem_operands_iff opcode).mp hmem with rfl | rfl | ⟨kind, rfl⟩
      · have hrange := mt (@Unreadable.calculate parameter) h
        obtain ⟨op, hop⟩ := (exists_number_eq_iff parameter.toInt).mpr (by omega)
        exact ⟨_, .calculate hop⟩
      · exact ⟨_, .pushConstant parameter⟩
      · have hrange := mt (@Unreadable.push kind parameter) h
        obtain ⟨address, haddress⟩ :=
          (uint16_wraps.exists_eq_toNat_iff parameter.toInt).mpr (by omega)
        exact ⟨_, .push haddress⟩
    · exact ⟨token, (readsBackAs_iff_eq hoperand token).mpr rfl⟩

/-- A token is read back as itself exactly if it is no operation with the opcode of an operand. -/
theorem readsBackAs_self_iff (token : Token) :
    ReadsBackAs token token ↔ ¬ token.NamesOperand := by
  constructor
  · rintro h ⟨opcode, hmem, parameter, rfl⟩
    rcases (mem_operands_iff opcode).mp hmem with rfl | rfl | ⟨kind, rfl⟩
    · obtain ⟨op, -, hresult⟩ := (readsBackAs_calculate_iff _ _).mp h
      cases hresult
    · cases (readsBackAs_pushConstant_iff _ _).mp h
    · obtain ⟨address, -, hresult⟩ := (readsBackAs_push_iff _ _ _).mp h
      cases hresult
  · intro h
    exact (readsBackAs_iff_eq h token).mpr rfl

/-- What is read back is read back as itself when it is written again. -/
theorem ReadsBackAs.self {token result : Token} (h : ReadsBackAs token result) :
    ReadsBackAs result result := by
  cases h with
  | constant value => exact .constant value
  | memory v => exact .memory v
  | calculation op => exact .calculation op
  | operation hnot => exact .operation hnot
  | pushConstant value => exact .constant value
  | push haddress => exact .memory _
  | calculate hop => exact .calculation _

end Token

namespace Listing

/-! ## The words of a token -/

/-- Characters that stay one word in a line, outside of any comment. -/
def IsWord (word : List Char) : Prop :=
  word ≠ [] ∧ ∀ c ∈ word, Text.isBlank c = false ∧ c ≠ '#'

instance (word : List Char) : Decidable (IsWord word) :=
  decidable_of_iff (!word.isEmpty && word.all fun c => !Text.isBlank c && c != '#')
    (by simp [IsWord])

/-- Digits are a word. -/
theorem isWord_digits {radix : Nat} (hr : radix ≤ 16) {word : List Char} {ds : List Nat}
    (hne : word ≠ []) (h : List.Forall₂ (Numeral.IsDigit radix) word ds) : IsWord word := by
  have every : ∀ (k : Fin 128) (d : Fin 16), (Char.ofNat k).toLower = d.val.digitChar →
      Text.isBlank (Char.ofNat k) = false ∧ Char.ofNat k ≠ '#' := by decide +kernel
  refine ⟨hne, ?_⟩
  clear hne
  induction h with
  | nil => simp
  | @cons c d rest ds hdigit hrest ih =>
    have hc := every ⟨_, Numeral.toNat_lt_of_isDigit hdigit hr⟩
      ⟨d, Nat.lt_of_lt_of_le hdigit.1 hr⟩
    rw [Char.ofNat_toNat] at hc
    exact List.forall_mem_cons.mpr ⟨hc hdigit.2, ih⟩

/-- A word in front of which a character is put that is neither blank nor a comment mark is a word.
-/
theorem IsWord.cons {c : Char} {word : List Char} (hblank : Text.isBlank c = false)
    (hmark : c ≠ '#') (h : IsWord word) : IsWord (c :: word) :=
  ⟨List.cons_ne_nil c word, List.forall_mem_cons.mpr ⟨⟨hblank, hmark⟩, h.2⟩⟩

/-- A numeral is one word. -/
theorem isWord_of_denotes {word : List Char} {n : Int} (h : Denotes word n) : IsWord word := by
  have hmagnitude : ∀ {cs : List Char} {m : Nat}, Numeral.DenotesMagnitude cs m → IsWord cs := by
    intro cs m h
    cases h with
    | decimal hne digits => exact isWord_digits (by decide) hne digits
    | hexadecimal hmark hne digits =>
      have hdigits := isWord_digits (by decide) hne digits
      rcases Numeral.eq_of_toLower_eq_x hmark with rfl | rfl
      · exact (hdigits.cons (by decide) (by decide)).cons (by decide) (by decide)
      · exact (hdigits.cons (by decide) (by decide)).cons (by decide) (by decide)
  cases h with
  | unsigned magnitude => exact hmagnitude magnitude
  | negative magnitude => exact (hmagnitude magnitude).cons (by decide) (by decide)

/-- The name of an opcode is in the table, or it is the numeral of an opcode that is not. -/
theorem name_cases (opcode : Opcode) :
    (opcode, opcode.name) ∈ Opcode.mnemonics ∨
      Denotes opcode.name.toList opcode.code.toNat ∧
        ∀ name, (opcode, name) ∉ Opcode.mnemonics := by
  unfold Opcode.name Opcode.mnemonic?
  cases hlookup : Opcode.mnemonics.lookup opcode with
  | some name =>
    obtain ⟨before, after, heq, -⟩ := List.lookup_eq_some_iff.mp hlookup
    refine .inl ?_
    rw [heq, Option.getD_some]
    exact List.mem_append_right _ List.mem_cons_self
  | none =>
    refine .inr ⟨Numeral.denotes_hex 3 opcode.code.toNat, ?_⟩
    intro name hmem
    have hnot := List.lookup_eq_none_iff.mp hlookup _ hmem
    simp at hnot

/-- The name of an opcode is a word. -/
theorem isWord_name (opcode : Opcode) : IsWord opcode.name.toList := by
  have every : ∀ entry ∈ Opcode.mnemonics, IsWord entry.2.toList := by decide
  rcases name_cases opcode with hmem | ⟨hdenotes, -⟩
  · exact every (opcode, opcode.name) hmem
  · exact isWord_of_denotes hdenotes

/-- The argument of a token is a word. -/
theorem isWord_argument (token : Token) : IsWord token.argument.toList := by
  cases token with
  | constant value => exact isWord_of_denotes (Numeral.denotes_ofInt value.toInt)
  | memory v => exact isWord_of_denotes (Numeral.denotes_hex 4 v.address.toNat)
  | calculation op => cases op <;> decide
  | operation opcode parameter => exact isWord_of_denotes (Numeral.denotes_ofInt parameter.toInt)

/-- A token is written as two words with a blank between. -/
theorem toList_text (token : Token) :
    token.text.toList = token.opcode.name.toList ++ ' ' :: token.argument.toList := by
  rw [Token.text, Token.mnemonic_eq_name, String.toList_append, String.toList_append,
    List.append_assoc]
  rfl

/-- Apart from the space between its words a line that is written has neither blanks nor a
comment. -/
theorem of_mem_text {token : Token} {c : Char} (hc : c ∈ token.text.toList) :
    c = ' ' ∨ Text.isBlank c = false ∧ c ≠ '#' := by
  rw [toList_text] at hc
  rcases List.mem_append.mp hc with hc | hc
  · exact .inr ((isWord_name token.opcode).2 c hc)
  · rcases List.mem_cons.mp hc with rfl | hc
    · exact .inl rfl
    · exact .inr ((isWord_argument token).2 c hc)

/-- A line that is written for a token has two words: a name and an argument. -/
theorem lineWords_text (token : Token) :
    lineWords token.text = [token.opcode.name, token.argument] := by
  have hname := isWord_name token.opcode
  have hargument := isWord_argument token
  have huncommented : uncommented token.text.toList = token.text.toList := by
    unfold uncommented
    rw [List.takeWhile_eq_self_iff]
    intro c hc
    rw [bne_iff_ne]
    rcases of_mem_text hc with rfl | ⟨-, hmark⟩
    · decide
    · exact hmark
  rw [lineWords, huncommented, toList_text,
    Text.wordChars_append_blank hname.1 (fun c hc => (hname.2 c hc).1) (by decide),
    Text.wordChars_eq_singleton hargument.1 (fun c hc => (hargument.2 c hc).1)]
  simp only [List.map_cons, List.map_nil, String.ofList_toList]

/-! ## Reading a line back -/

/-- A line of any other opcode is that of an operation. -/
theorem ofOpcode_of_not_mem {opcode : Opcode} (h : opcode ∉ Opcode.operands) :
    LineForm.ofOpcode opcode = .operation opcode := by
  rw [Token.mem_operands_iff, not_or, not_or, not_exists] at h
  have hkind : VariableKind.ofPushOpcode? opcode = none := by
    rw [Option.eq_none_iff_forall_ne_some]
    intro kind hkind
    exact h.2.2 kind ((VariableKind.ofPushOpcode?_eq_some_iff opcode kind).mp hkind)
  rw [LineForm.ofOpcode, hkind]
  dsimp only
  rw [if_neg h.2.1, if_neg h.1]

/-- The name of any opcode is read as the mnemonic of this opcode. -/
theorem readMnemonic_name (opcode : Opcode) :
    readMnemonic opcode.name = .ok (.ofOpcode opcode) := by
  have hupper : ∀ entry ∈ Opcode.mnemonics, Spells entry.2.toList entry.2 := by
    unfold Spells
    decide
  rcases name_cases opcode with hmem | ⟨hdenotes, hnot⟩
  · exact readMnemonic_of_spells hmem (hupper (opcode, opcode.name) hmem)
  · have hnamed : ∀ operand ∈ Opcode.operands, ∃ entry ∈ Opcode.mnemonics, entry.1 = operand := by
      decide
    have hoperand : opcode ∉ Opcode.operands := by
      intro hmem
      obtain ⟨⟨_, name⟩, hentry, rfl⟩ := hnamed opcode hmem
      exact hnot name hentry
    rw [readMnemonic_of_denotes hdenotes, ofOpcode_of_not_mem hoperand]

/-- The words of a token are read in the form of its opcode. -/
theorem readWords_text (token : Token) :
    readWords token.opcode.name [token.argument] =
      match LineForm.ofOpcode token.opcode with
      | .memory kind => (readNumber .address unsigned16? token.argument).map
          fun address => Token.memory { kind, address }
      | .constant => (readNumber .constant signed32? token.argument).map Token.constant
      | .calculation => (readCalculation token.argument).map Token.calculation
      | .operation opcode => (readNumber .parameter signed32? token.argument).map
          (Token.operation opcode) := by
  rw [readWords, readMnemonic_name]
  cases LineForm.ofOpcode token.opcode <;> rfl

/-- A line of an opcode that pushes variables is that of a variable. -/
theorem ofOpcode_pushOpcode (kind : VariableKind) :
    LineForm.ofOpcode kind.pushOpcode = .memory kind := by
  rw [LineForm.ofOpcode, (VariableKind.ofPushOpcode?_eq_some_iff _ kind).mpr rfl]

/-- A numeral that is written for an integer denotes no other. -/
theorem denotes_ofInt_iff (n m : Int) : Denotes (Numeral.ofInt n).toList m ↔ n = m := by
  constructor
  · intro h
    exact (Numeral.denotes_ofInt n).unique h
  · rintro rfl
    exact Numeral.denotes_ofInt n

/-- A signed number is read back from its decimal numeral. -/
theorem readNumber_signed32?_ofInt (quantity : Quantity) (value : Int32) :
    readNumber quantity signed32? (Numeral.ofInt value.toInt) = .ok value :=
  (readNumber_signed32?_eq_ok_iff quantity _ value).mpr (Numeral.denotes_ofInt value.toInt)

/-- A mnemonic of a calculation is no numeral. -/
theorem readCalculation_ofInt_eq_ok_iff (n : Int) (op : Calculation) :
    readCalculation (Numeral.ofInt n) = .ok op ↔ n = op.number := by
  rw [readCalculation_eq_ok_iff, denotes_ofInt_iff]
  have hletter : op.mnemonic.toList.head?.any ('A' ≤ ·) := by cases op <;> decide
  have hnot := not_spells_of_denotes (Numeral.denotes_ofInt n) hletter
  exact or_iff_right hnot

/-- The words of any token are read as this token, unless they name an operand. -/
theorem readWords_text_self {token : Token} (h : ¬ token.NamesOperand) :
    readWords token.opcode.name [token.argument] = .ok token := by
  rw [readWords_text]
  cases token with
  | constant value =>
    show (readNumber .constant signed32? (Numeral.ofInt value.toInt)).map Token.constant = _
    rw [readNumber_signed32?_ofInt]
    rfl
  | memory v =>
    have haddress := (readNumber_unsigned16?_eq_ok_iff .address _ _).mpr
      (Numeral.denotes_hex 4 v.address.toNat)
    simp only [Token.opcode, Token.argument, ofOpcode_pushOpcode, haddress]
    rfl
  | calculation op =>
    have hspells : Spells op.mnemonic.toList op.mnemonic := by
      unfold Spells
      cases op <;> decide
    show (readCalculation op.mnemonic).map Token.calculation = _
    rw [(readCalculation_eq_ok_iff _ _).mpr (.inl hspells)]
    rfl
  | operation opcode parameter =>
    have hopcode : opcode ∉ Opcode.operands := fun hmem => h ⟨opcode, hmem, parameter, rfl⟩
    simp only [Token.opcode, Token.argument, ofOpcode_of_not_mem hopcode,
      readNumber_signed32?_ofInt]
    rfl

/-- The words of a token are read as what the token is read back as. -/
theorem readWords_text_eq_ok_iff (token result : Token) :
    readWords token.opcode.name [token.argument] = .ok result ↔ token.ReadsBackAs result := by
  by_cases hoperand : token.NamesOperand
  · obtain ⟨opcode, hmem, parameter, rfl⟩ := hoperand
    rw [readWords_text]
    rcases (Token.mem_operands_iff opcode).mp hmem with rfl | rfl | ⟨kind, rfl⟩
    · show (readCalculation (Numeral.ofInt parameter.toInt)).map Token.calculation =
        .ok result ↔ _
      rw [map_eq_ok_iff, Token.readsBackAs_calculate_iff]
      simp only [readCalculation_ofInt_eq_ok_iff, @eq_comm Token result]
    · show (readNumber .constant signed32? (Numeral.ofInt parameter.toInt)).map Token.constant =
        .ok result ↔ _
      rw [readNumber_signed32?_ofInt, Token.readsBackAs_pushConstant_iff, @eq_comm Token result,
        Except.map, Except.ok.injEq]
    · simp only [Token.opcode, Token.argument, ofOpcode_pushOpcode]
      rw [map_eq_ok_iff, Token.readsBackAs_push_iff]
      simp only [readNumber_unsigned16?_eq_ok_iff, denotes_ofInt_iff, @eq_comm Token result]
  · rw [readWords_text_self hoperand, Token.readsBackAs_iff_eq hoperand, @eq_comm Token result,
      Except.ok.injEq]

/-- A line that is written for a token is never blank. -/
theorem readLine_text (token : Token) :
    readLine token.text = (readWords token.opcode.name [token.argument]).map some := by
  rw [readLine, lineWords_text]

/-- The line of a token is read as what the token is read back as, and as nothing else. -/
theorem readLine_text_eq_ok_iff (token : Token) (meaning : Option Token) :
    readLine token.text = .ok meaning ↔
      ∃ result, token.ReadsBackAs result ∧ some result = meaning := by
  rw [readLine_text, map_eq_ok_iff]
  simp only [readWords_text_eq_ok_iff]

/-! ## Reading a listing back -/

/-- The lines of a listing that is written are those of its tokens. -/
theorem lines_write (tokens : List Token) :
    Text.lines (Listing.write tokens) = tokens.map Token.text := by
  rw [Text.lines, Listing.write, String.toList_intercalate]
  have hlines : ∀ line ∈ (tokens.map Token.text).map String.toList,
      line ≠ [] ∧ '\n' ∉ line ∧ '\r' ∉ line := by
    intro line hline
    simp only [List.mem_map] at hline
    obtain ⟨_, ⟨token, -, rfl⟩, rfl⟩ := hline
    refine ⟨?_, fun hmem => ?_, fun hmem => ?_⟩
    · rw [toList_text]
      simp
    · rcases of_mem_text hmem with h | ⟨h, -⟩ <;> exact absurd h (by decide)
    · rcases of_mem_text hmem with h | ⟨h, -⟩ <;> exact absurd h (by decide)
  have hjoined := Text.lineChars_intercalate hlines
  rw [show "\n".toList = ['\n'] from rfl, hjoined, List.map_map]
  simp

/-- The entries of lines that all have tokens. -/
theorem eq_numbered_iff (number : Nat) (tokens : List Token) (entries : List ListingEntry) :
    entries = numbered number (tokens.map some) ↔
      entries.map (·.token) = tokens ∧
        entries.map (·.line) = List.range' number tokens.length := by
  induction tokens generalizing number entries with
  | nil => cases entries <;> simp [numbered]
  | cons token rest ih =>
    rw [List.map_cons, numbered_cons_some]
    cases entries with
    | nil => simp
    | cons entry others =>
      obtain ⟨line, found⟩ := entry
      rw [List.cons.injEq, ListingEntry.mk.injEq, ih, List.map_cons, List.map_cons,
        List.length_cons, List.range'_succ, List.cons.injEq, List.cons.injEq]
      tauto

/-- Tokens that are written one a line are read back one by one. -/
theorem forall₂_readLine_text_iff (tokens : List Token) (meanings : List (Option Token)) :
    List.Forall₂ (fun line meaning => readLine line = .ok meaning)
        (tokens.map Token.text) meanings ↔
      ∃ results, List.Forall₂ Token.ReadsBackAs tokens results ∧ meanings = results.map some := by
  induction tokens generalizing meanings with
  | nil =>
    constructor
    · rintro ⟨⟩
      exact ⟨[], .nil, rfl⟩
    · rintro ⟨_, ⟨⟩, rfl⟩
      exact .nil
  | cons token rest ih =>
    rw [List.map_cons, List.forall₂_cons_left_iff]
    constructor
    · rintro ⟨meaning, others, hline, hrest, rfl⟩
      obtain ⟨result, hresult, rfl⟩ := (readLine_text_eq_ok_iff token meaning).mp hline
      obtain ⟨results, hresults, rfl⟩ := (ih others).mp hrest
      exact ⟨result :: results, .cons hresult hresults, rfl⟩
    · rintro ⟨_, hresults, rfl⟩
      cases hresults with
      | @cons _ result _ results hresult hrest =>
        exact ⟨some result, results.map some,
          (readLine_text_eq_ok_iff _ _).mpr ⟨result, hresult, rfl⟩,
          (ih _).mpr ⟨results, hrest, rfl⟩, rfl⟩

/-- What is written for tokens is read as a listing exactly if each of them is read back, on the
lines from one on. -/
theorem parse_write_eq_ok_iff (tokens : List Token) (listing : Listing) :
    parse (write tokens) = .ok listing ↔
      List.Forall₂ Token.ReadsBackAs tokens listing.tokens ∧
        listing.lines = List.range' 1 tokens.length := by
  obtain ⟨entries⟩ := listing
  rw [parse_eq_ok_iff, lines_write, readFrom_eq_ok_iff]
  constructor
  · rintro ⟨meanings, hmeanings, hentries⟩
    obtain ⟨results, hresults, rfl⟩ := (forall₂_readLine_text_iff tokens meanings).mp hmeanings
    obtain ⟨htokens, hlines⟩ := (eq_numbered_iff 1 results entries).mp hentries
    refine ⟨?_, ?_⟩
    · rw [Listing.tokens, htokens]
      exact hresults
    · rw [Listing.lines, hlines, hresults.length_eq]
  · rintro ⟨hresults, hlines⟩
    refine ⟨_, (forall₂_readLine_text_iff tokens _).mpr ⟨_, hresults, rfl⟩, ?_⟩
    refine (eq_numbered_iff 1 _ entries).mpr ⟨rfl, ?_⟩
    rw [← hresults.length_eq]
    exact hlines

/-- The line of a token has a fault exactly if the token is an operation whose parameter is out of
range for an operand. -/
theorem readLine_text_eq_error_iff (token : Token) :
    (∃ fault, readLine token.text = .error fault) ↔ token.Unreadable := by
  rw [← not_iff_not, ← Token.exists_readsBackAs_iff]
  simp only [← readWords_text_eq_ok_iff, readLine_text]
  cases readWords token.opcode.name [token.argument] <;> simp [Except.map]

/-- What is written for tokens has its fault on the line of the first that is unreadable. -/
theorem parse_write_eq_error_iff (tokens : List Token) (line : Nat) :
    (∃ fault, parse (write tokens) = .error { line, fault }) ↔
      ∃ before token after,
        tokens = before ++ token :: after ∧
        line = before.length + 1 ∧
        (∀ previous ∈ before, ¬ previous.Unreadable) ∧
        token.Unreadable := by
  simp only [parse_eq_error_iff, lines_write, readFrom_eq_error_iff]
  constructor
  · rintro ⟨fault, before, text, after, hlines, hline, htext, hbefore⟩
    obtain ⟨before, rest, rfl, rfl, hrest⟩ := List.map_eq_append_iff.mp hlines
    obtain ⟨token, after, rfl, rfl, rfl⟩ := List.map_eq_cons_iff.mp hrest
    refine ⟨before, token, after, rfl, ?_, ?_,
      (readLine_text_eq_error_iff token).mp ⟨fault, htext⟩⟩
    · rw [hline, List.length_map, Nat.add_comm]
    · intro previous hprevious
      obtain ⟨meaning, hmeaning⟩ := hbefore previous.text (List.mem_map_of_mem hprevious)
      obtain ⟨result, hresult, -⟩ := (readLine_text_eq_ok_iff previous meaning).mp hmeaning
      exact (Token.exists_readsBackAs_iff previous).mp ⟨result, hresult⟩
  · rintro ⟨before, token, after, rfl, rfl, hbefore, htoken⟩
    obtain ⟨fault, hfault⟩ := (readLine_text_eq_error_iff token).mpr htoken
    refine ⟨fault, before.map Token.text, token.text, after.map Token.text, ?_, ?_, hfault, ?_⟩
    · rw [List.map_append, List.map_cons]
    · rw [List.length_map, Nat.add_comm]
    · intro text htext
      obtain ⟨previous, hprevious, rfl⟩ := List.mem_map.mp htext
      obtain ⟨result, hresult⟩ :=
        (Token.exists_readsBackAs_iff previous).mpr (hbefore previous hprevious)
      exact ⟨some result, (readLine_text_eq_ok_iff _ _).mpr ⟨result, hresult, rfl⟩⟩

/-- Tokens are read back as themselves if none of them names an operand. -/
theorem parse_write_self_iff (tokens : List Token) :
    (∃ listing, parse (write tokens) = .ok listing ∧ listing.tokens = tokens ∧
        listing.lines = List.range' 1 tokens.length) ↔
      ∀ token ∈ tokens, ¬ token.NamesOperand := by
  simp only [parse_write_eq_ok_iff, ← Token.readsBackAs_self_iff, ← List.forall₂_same]
  constructor
  · rintro ⟨listing, ⟨hresults, -⟩, htokens, -⟩
    rwa [htokens] at hresults
  · intro hself
    obtain ⟨htokens, hlines⟩ := (eq_numbered_iff 1 tokens _).mp rfl
    refine ⟨⟨numbered 1 (tokens.map some)⟩, ⟨?_, hlines⟩, htokens, hlines⟩
    rw [Listing.tokens, htokens]
    exact hself

/-- What tokens were read back as is read back as itself. -/
theorem readsBackAs_self {tokens results : List Token}
    (h : List.Forall₂ Token.ReadsBackAs tokens results) :
    List.Forall₂ Token.ReadsBackAs results results := by
  induction h with
  | nil => exact .nil
  | cons hresult hrest ih => exact .cons hresult.self ih

/-- Reading what was written gives the tokens themselves exactly if no operation among them
has an opcode that places operands. In general each token is read back on its own, the
first one that cannot be is the fault, and what was read back is read back unchanged. -/
theorem parse_write (tokens : List Token) :
    ((∃ listing, parse (write tokens) = .ok listing ∧ listing.tokens = tokens ∧
          listing.lines = List.range' 1 tokens.length) ↔
        ∀ opcode ∈ Opcode.operands, ∀ parameter, Token.operation opcode parameter ∉ tokens) ∧
      (∀ listing, parse (write tokens) = .ok listing ↔
        List.Forall₂ Token.ReadsBackAs tokens listing.tokens ∧
          listing.lines = List.range' 1 tokens.length) ∧
      (∀ line, (∃ fault, parse (write tokens) = .error { line, fault }) ↔
        ∃ before token after,
          tokens = before ++ token :: after ∧
          line = before.length + 1 ∧
          (∀ previous ∈ before, ¬ previous.Unreadable) ∧
          token.Unreadable) ∧
      ∀ listing, parse (write tokens) = .ok listing →
        parse (write listing.tokens) = .ok listing := by
  refine ⟨?_, parse_write_eq_ok_iff tokens, parse_write_eq_error_iff tokens, ?_⟩
  · rw [parse_write_self_iff]
    constructor
    · intro h opcode hopcode parameter hmem
      exact h _ hmem ⟨opcode, hopcode, parameter, rfl⟩
    · rintro h token hmem ⟨opcode, hopcode, parameter, rfl⟩
      exact h opcode hopcode parameter hmem
  · intro listing hparse
    obtain ⟨hresults, hlines⟩ := (parse_write_eq_ok_iff tokens listing).mp hparse
    refine (parse_write_eq_ok_iff listing.tokens listing).mpr ⟨readsBackAs_self hresults, ?_⟩
    rw [← hresults.length_eq]
    exact hlines

end Listing

end EventScript
