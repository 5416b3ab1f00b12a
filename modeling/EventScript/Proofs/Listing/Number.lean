import EventScript.Proofs.Listing.Grammar
import EventScript.Proofs.Text.CheckedNumeral

/-!
# Numbers in listings

A number behind a mnemonic can be wrong in two ways. It may be read and not fit into what it
stands for, and then it is out of range; or it may not be read at all, because it is no numeral
or one of a magnitude that exceeds 64 bits, and then it is called invalid. Which of the two is
reported changes exactly at the magnitude `2 ^ 63`, whatever the number stands for.
-/

set_option autoImplicit false

namespace EventScript.Listing

open EventScript.Numeral (Denotes)

/-! ## Faults of a number -/

/-- The integers that fit into a quantity. -/
def Quantity.range : Quantity → Set Int
  | address | opcode => Set.Ico 0 0x10000
  | constant | parameter => Set.Ico (-0x80000000) 0x80000000

/-- `TakesNumber mnemonic quantity`: the word behind this one is a number for this
quantity. -/
inductive TakesNumber : List Char → Quantity → Prop where
  | address {mnemonic : List Char} {kind : VariableKind}
      (h : Spells mnemonic (pushMnemonic kind)) : TakesNumber mnemonic .address
  | constant {mnemonic : List Char} (h : Spells mnemonic "PSHN_L") :
      TakesNumber mnemonic .constant
  | parameter {mnemonic : List Char} {opcode : Opcode} (h : NamesOpcode mnemonic opcode) :
      TakesNumber mnemonic .parameter

/-- `NumberFault quantity word fault`: as a number for this quantity, the word has this
fault. -/
inductive NumberFault (quantity : Quantity) (word : String) : Fault → Prop where
  | outOfRange {n : Int} (denotes : Denotes word.toList n)
      (magnitude : n.natAbs ≤ Numeral.maxMagnitude) (out : n ∉ quantity.range) :
      NumberFault quantity word (.outOfRange quantity word)
  | malformed (unread : ∀ n, Denotes word.toList n → Numeral.maxMagnitude < n.natAbs) :
      NumberFault quantity word (.malformedNumber word)

/-- An integer is no unsigned word exactly if it is outside of their range. -/
theorem unsigned16?_eq_none_iff (n : Int) : unsigned16? n = none ↔ n ∉ Set.Ico 0 0x10000 := by
  rw [unsigned16?, Set.mem_Ico]
  split <;> simp_all

/-- An integer is no signed word exactly if it is outside of their range. -/
theorem signed32?_eq_none_iff (n : Int) :
    signed32? n = none ↔ n ∉ Set.Ico (-0x80000000) 0x80000000 := by
  rw [signed32?, Set.mem_Ico]
  split <;> simp_all

/-- A number that has been read can only be out of range. -/
theorem fitted_eq_error_iff {α : Type} {quantity : Quantity} {fit? : Int → Option α}
    (hfit : ∀ n, fit? n = none ↔ n ∉ quantity.range) (word : String) (n : Int) (fault : Fault) :
    fitted quantity fit? word n = .error fault ↔
      fault = .outOfRange quantity word ∧ n ∉ quantity.range := by
  rw [← hfit, fitted]
  cases fit? n with
  | none => simp [eq_comm]
  | some value => simp

/-- A word that has to fit into a field is refused with the fault that it has, and with no
other. -/
theorem readNumber_eq_error_iff {α : Type} {quantity : Quantity} {fit? : Int → Option α}
    (hfit : ∀ n, fit? n = none ↔ n ∉ quantity.range) (word : String) (fault : Fault) :
    readNumber quantity fit? word = .error fault ↔ NumberFault quantity word fault := by
  unfold readNumber
  cases hread : Numeral.read? word with
  | none =>
    have hunread := (Numeral.read?_eq_none_iff word).mp hread
    constructor
    · intro h
      cases h
      exact .malformed hunread
    · intro h
      cases h with
      | outOfRange denotes magnitude out =>
        exact absurd magnitude (Nat.not_le.mpr (hunread _ denotes))
      | malformed unread => rfl
  | some n =>
    obtain ⟨hdenotes, hmagnitude⟩ := (Numeral.read?_eq_some_iff word n).mp hread
    dsimp only
    rw [fitted_eq_error_iff hfit]
    constructor
    · rintro ⟨rfl, hout⟩
      exact .outOfRange hdenotes hmagnitude hout
    · intro h
      cases h with
      | outOfRange denotes magnitude out => exact ⟨rfl, denotes.unique hdenotes ▸ out⟩
      | malformed unread => exact absurd hmagnitude (Nat.not_le.mpr (unread n hdenotes))

/-! ## Faults of a line -/

/-- Behind a mnemonic that takes a number, one word is read as this number. -/
theorem readWords_eq_error_iff {mnemonic : String} {quantity : Quantity}
    (takes : TakesNumber mnemonic.toList quantity) (word : String) (fault : Fault) :
    readWords mnemonic [word] = .error fault ↔ NumberFault quantity word fault := by
  cases takes with
  | @address kind hspells =>
    have hform := (readMnemonic_eq_ok_iff mnemonic _).mpr (.memory hspells)
    have hread : readWords mnemonic [word] =
        (readNumber .address unsigned16? word).map fun address => .memory { kind, address } := by
      rw [readWords, hform]
      rfl
    rw [hread, map_eq_error_iff, readNumber_eq_error_iff unsigned16?_eq_none_iff]
  | constant hspells =>
    have hform := (readMnemonic_eq_ok_iff mnemonic _).mpr (.constant hspells)
    have hread : readWords mnemonic [word] =
        (readNumber .constant signed32? word).map .constant := by
      rw [readWords, hform]
      rfl
    rw [hread, map_eq_error_iff, readNumber_eq_error_iff signed32?_eq_none_iff]
  | @parameter opcode hnames =>
    have hform := (readMnemonic_eq_ok_iff mnemonic _).mpr (.operation hnames)
    have hread : readWords mnemonic [word] =
        (readNumber .parameter signed32? word).map (.operation opcode) := by
      rw [readWords, hform]
      rfl
    rw [hread, map_eq_error_iff, readNumber_eq_error_iff signed32?_eq_none_iff]

variable {source line mnemonic word : String} {before after : List String} {quantity : Quantity}

/-- A line of a mnemonic and a number has the faults of the number and no others. -/
theorem readLine_eq_error_iff (hwords : lineWords line = [mnemonic, word])
    (takes : TakesNumber mnemonic.toList quantity) (fault : Fault) :
    readLine line = .error fault ↔ NumberFault quantity word fault := by
  rw [readLine, hwords]
  dsimp only
  rw [map_eq_error_iff, readWords_eq_error_iff takes]

/-- If the lines before a line are read, a source has a fault on this line exactly if the line
has it. -/
theorem parse_eq_error_at_iff (hlines : Text.lines source = before ++ line :: after)
    (hbefore : ∀ previous ∈ before, ∃ meaning, readLine previous = .ok meaning) (fault : Fault) :
    parse source = .error ⟨before.length + 1, fault⟩ ↔ readLine line = .error fault := by
  rw [parse_eq_error_iff, readFrom_eq_error_iff]
  constructor
  · rintro ⟨before', line', after', hlines', hnumber, hline', -⟩
    have hlength : before.length = before'.length := by
      dsimp only at hnumber
      omega
    rw [hlines] at hlines'
    obtain ⟨-, hrest⟩ := List.append_inj hlines' hlength
    rwa [(List.cons.inj hrest).1]
  · intro hline
    exact ⟨before, line, after, hlines, Nat.add_comm _ _, hline, hbefore⟩

/-- `Reports source number message`: the source is no listing, for this reason on the line of
this number. -/
def Reports (source : String) (number : Nat) (message : String) : Prop :=
  ∃ error, parse source = .error error ∧ error.line = number ∧ error.message = message

/-- What is reported on a line with a number is a fault of this number. -/
theorem reports_iff (hlines : Text.lines source = before ++ line :: after)
    (hbefore : ∀ previous ∈ before, ∃ meaning, readLine previous = .ok meaning)
    (hwords : lineWords line = [mnemonic, word])
    (takes : TakesNumber mnemonic.toList quantity) (message : String) :
    Reports source (before.length + 1) message ↔
      ∃ fault, NumberFault quantity word fault ∧ fault.message = message := by
  constructor
  · rintro ⟨⟨number, fault⟩, hparse, rfl, hmessage⟩
    rw [parse_eq_error_at_iff hlines hbefore, readLine_eq_error_iff hwords takes] at hparse
    exact ⟨fault, hparse, hmessage⟩
  · rintro ⟨fault, hfault, hmessage⟩
    rw [← readLine_eq_error_iff hwords takes, ← parse_eq_error_at_iff hlines hbefore] at hfault
    exact ⟨_, hfault, rfl, hmessage⟩

/-- The two ways in which a number can be wrong are told apart by their messages. -/
theorem outOfRange_message_ne (quantity : Quantity) (word : String) :
    (Fault.outOfRange quantity word).message ≠ (Fault.malformedNumber word).message := by
  intro h
  have hopening := (String.append_left_inj word).mp h
  cases quantity <;> exact absurd hopening (by decide)

/-- A word is out of range exactly if it denotes a number within the limit that the quantity does
not have. -/
theorem exists_outOfRange_iff (quantity : Quantity) (word : String) :
    (∃ fault, NumberFault quantity word fault ∧
      fault.message = quantity.name ++ " out of range: " ++ word) ↔
    ∃ n, Denotes word.toList n ∧ n.natAbs ≤ Numeral.maxMagnitude ∧ n ∉ quantity.range := by
  constructor
  · rintro ⟨fault, hfault, hmessage⟩
    cases hfault with
    | outOfRange denotes magnitude out => exact ⟨_, denotes, magnitude, out⟩
    | malformed unread => exact absurd hmessage.symm (outOfRange_message_ne quantity word)
  · rintro ⟨n, hdenotes, hmagnitude, hout⟩
    exact ⟨_, .outOfRange hdenotes hmagnitude hout, rfl⟩

/-- A word is invalid exactly if every number that it denotes is beyond the limit, which includes
the words that denote none. -/
theorem exists_malformed_iff (quantity : Quantity) (word : String) :
    (∃ fault, NumberFault quantity word fault ∧ fault.message = "Invalid number: " ++ word) ↔
    ∀ n, Denotes word.toList n → Numeral.maxMagnitude < n.natAbs := by
  constructor
  · rintro ⟨fault, hfault, hmessage⟩
    cases hfault with
    | outOfRange denotes magnitude out =>
      exact absurd hmessage (outOfRange_message_ne quantity word)
    | malformed unread => exact unread
  · intro hunread
    exact ⟨_, .malformed hunread, rfl⟩

/-! ## Numbers as a whole -/

/-- A number is read as the integer that it denotes, up to a magnitude of `2 ^ 63 - 1`, which is
what 64 bits hold: reading by checked steps gives the same, and negates nothing that it cannot.
Written numbers are read back. Behind a mnemonic that takes a number, a word that is read and does
not fit is reported as out of range, and one that is no numeral or of a greater magnitude as
invalid. -/
theorem numbers_read_exactly :
    (∀ word n, Numeral.read? word = some n ↔
      Denotes word.toList n ∧ n.natAbs ≤ 2 ^ 63 - 1) ∧
    (∀ word, (Numeral.checkedRead? word).map Int64.toInt = Numeral.read? word) ∧
    (∀ cs m, Numeral.checkedMagnitude? cs = some m → m.toBitVec.negOverflow = false) ∧
    (∀ n : Int64, Numeral.read? (Numeral.ofInt n.toInt) = some n.toInt ↔ n ≠ Int64.minValue) ∧
    (∀ (n width : Nat) (word : String), n ≤ 2 ^ 63 - 1 →
      Text.lowered word.toList = Text.lowered (Numeral.hex width n).toList →
      Numeral.read? word = some n) ∧
    ∀ (source line mnemonic word : String) (before after : List String) (quantity : Quantity),
      Text.lines source = before ++ line :: after →
      (∀ previous ∈ before, ∃ meaning, readLine previous = .ok meaning) →
      lineWords line = [mnemonic, word] →
      TakesNumber mnemonic.toList quantity →
      (Reports source (before.length + 1) (quantity.name ++ " out of range: " ++ word) ↔
        ∃ n, Denotes word.toList n ∧ n.natAbs ≤ 2 ^ 63 - 1 ∧ n ∉ quantity.range) ∧
      (Reports source (before.length + 1) ("Invalid number: " ++ word) ↔
        (∀ n, ¬ Denotes word.toList n) ∨ ∃ n, Denotes word.toList n ∧ 2 ^ 63 ≤ n.natAbs) := by
  have hlimit : 2 ^ 63 - 1 = Numeral.maxMagnitude := rfl
  rw [hlimit]
  refine ⟨Numeral.read?_eq_some_iff, Numeral.map_toInt_checkedRead?,
    fun cs m => Numeral.negOverflow_checkedMagnitude?, Numeral.read?_ofInt_iff,
    fun n width word => Numeral.read?_of_lowered_eq_hex, ?_⟩
  intro source line mnemonic word before after quantity hlines hbefore hwords takes
  rw [reports_iff hlines hbefore hwords takes, reports_iff hlines hbefore hwords takes,
    exists_outOfRange_iff, exists_malformed_iff]
  refine ⟨Iff.rfl, ?_⟩
  constructor
  · intro hunread
    by_cases hdenotes : ∃ n, Denotes word.toList n
    · obtain ⟨n, hn⟩ := hdenotes
      exact .inr ⟨n, hn, hunread n hn⟩
    · exact .inl (not_exists.mp hdenotes)
  · rintro (hmalformed | ⟨m, hm, hlarge⟩) n hn
    · exact absurd hn (hmalformed n)
    · rw [hn.unique hm]
      exact hlarge

/-- A listing with a number on its third line. -/
def numberSource (word : String) : String := "nop # first\n\nPSHN_L " ++ word ++ " # low\r\nbattle"

/-- The greatest magnitude that is read, and the next one. -/
theorem numbers_read_exactly_limits :
    Numeral.read? "-0X007fffffffffffFFFF" = some (-0x7fffffffffffffff) ∧
      Numeral.read? "0X00fF" = some 255 ∧
      (9223372036854775807 : Int64).toBitVec.negOverflow = false ∧
      Reports (numberSource "-0X7fffffffffffFFFF") 3
        "Constant out of range: -0X7fffffffffffFFFF" ∧
      Reports (numberSource "-0x8000000000000000") 3 "Invalid number: -0x8000000000000000" ∧
      Reports (numberSource "-+5") 3 "Invalid number: -+5" := by
  obtain ⟨hread, -, hnegate, -, hhex, hreports⟩ := numbers_read_exactly
  have hlow : Denotes "-0X007fffffffffffFFFF".toList (-0x7fffffffffffffff) :=
    (Numeral.value?_eq_some_iff _ _).mp (by decide +kernel)
  have hmagnitude : Numeral.checkedMagnitude? "9223372036854775807".toList =
      some 9223372036854775807 := by decide +kernel
  have hnop : ∀ previous ∈ ["nop # first", ""], ∃ meaning, readLine previous = .ok meaning := by
    simp only [List.mem_cons, List.not_mem_nil, or_false, forall_eq_or_imp, forall_eq]
    exact ⟨⟨some (.operation .nop 0), by decide +kernel⟩, ⟨none, by decide +kernel⟩⟩
  have hpush : TakesNumber "PSHN_L".toList .constant :=
    .constant ((spells_iff _ _).mpr (by decide +kernel))
  have hsmall := hreports (numberSource "-0X7fffffffffffFFFF") "PSHN_L -0X7fffffffffffFFFF # low"
    "PSHN_L" "-0X7fffffffffffFFFF" ["nop # first", ""] ["battle"] .constant (by decide +kernel) hnop
    (by decide +kernel) hpush
  have hlarge := hreports (numberSource "-0x8000000000000000") "PSHN_L -0x8000000000000000 # low"
    "PSHN_L" "-0x8000000000000000" ["nop # first", ""] ["battle"] .constant (by decide +kernel) hnop
    (by decide +kernel) hpush
  have hsigns := hreports (numberSource "-+5") "PSHN_L -+5 # low"
    "PSHN_L" "-+5" ["nop # first", ""] ["battle"] .constant (by decide +kernel) hnop
    (by decide +kernel) hpush
  refine ⟨(hread _ _).mpr ⟨hlow, by decide⟩, hhex 255 4 _ (by decide) (by decide +kernel),
    hnegate _ _ hmagnitude, hsmall.1.mpr ⟨-0x7fffffffffffffff, ?_, by decide, ?_⟩,
    hlarge.2.mpr (.inr ⟨-0x8000000000000000, ?_, by decide⟩), hsigns.2.mpr (.inl fun n hn => ?_)⟩
  · exact (Numeral.value?_eq_some_iff _ _).mp (by decide +kernel)
  · simp [Quantity.range]
  · exact (Numeral.value?_eq_some_iff _ _).mp (by decide +kernel)
  · rw [← Numeral.value?_eq_some_iff] at hn
    have hnone : Numeral.value? "-+5".toList = none := by decide +kernel
    rw [hnone] at hn
    cases hn

end EventScript.Listing
