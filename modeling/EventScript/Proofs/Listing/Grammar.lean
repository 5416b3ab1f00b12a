import EventScript.Listing.Parse
import EventScript.Proofs.Preliminaries
import EventScript.Proofs.Text.Line
import EventScript.Proofs.Text.Numeral
import EventScript.Proofs.Text.Word

/-!
# The grammar of listings

The lines of a listing are described by what their words have to be, apart from any
reader: the mnemonics of the operands with the numerals that fit behind them, and the
names or numbers of instructions with at most one parameter. The reader of listings
accepts exactly the texts all of whose lines belong to the grammar, and gives each
line its meaning. In the grammar a numeral may be of any length, so the limit on the
magnitudes that are read decides about no line.
-/

set_option autoImplicit false

namespace EventScript.Listing

open EventScript.Numeral (Denotes)
open EventScript.Text (HasLines HasWords)

/-! ## Grammar -/

/-- A word is a name, which is given in capitals, up to the case of ASCII letters. -/
def Spells (word : List Char) (name : String) : Prop := word.map Char.toUpper = name.toList

/-- The mnemonic that pushes a variable of a kind. -/
def pushMnemonic : VariableKind → String
  | .byte => "PSHM_B"
  | .word => "PSHM_W"
  | .long => "PSHM_L"
  | .signedByte => "PSHSM_B"
  | .signedWord => "PSHSM_W"
  | .signedLong => "PSHSM_L"

/-- The first word of an instruction: one of two names, or the number of any opcode. -/
inductive NamesOpcode : List Char → Opcode → Prop where
  | nop {word : List Char} (h : Spells word "NOP") : NamesOpcode word .nop
  | battle {word : List Char} (h : Spells word "BATTLE") : NamesOpcode word .battle
  | number {word : List Char} {code : UInt16} (h : Denotes word code.toNat) :
      NamesOpcode word ⟨code⟩

/-- The words behind the first one of an instruction: at most one parameter. -/
inductive IsParameter : List (List Char) → Int32 → Prop where
  | absent : IsParameter [] 0
  | given {word : List Char} {value : Int32} (h : Denotes word value.toInt) :
      IsParameter [word] value

/-- `WordsMean words meaning`: a line of these words is a token, or nothing if there are
no words. -/
inductive WordsMean : List (List Char) → Option Token → Prop where
  | blank : WordsMean [] none
  | memory {mnemonic word : List Char} {kind : VariableKind} {address : UInt16}
      (hmnemonic : Spells mnemonic (pushMnemonic kind)) (hword : Denotes word address.toNat) :
      WordsMean [mnemonic, word] (some (.memory { kind, address }))
  | constant {mnemonic word : List Char} {value : Int32}
      (hmnemonic : Spells mnemonic "PSHN_L") (hword : Denotes word value.toInt) :
      WordsMean [mnemonic, word] (some (.constant value))
  | calculation {mnemonic word : List Char} {op : Calculation}
      (hmnemonic : Spells mnemonic "CAL")
      (hword : Spells word op.mnemonic ∨ Denotes word op.number) :
      WordsMean [mnemonic, word] (some (.calculation op))
  | operation {word : List Char} {arguments : List (List Char)} {opcode : Opcode}
      {parameter : Int32} (hword : NamesOpcode word opcode)
      (harguments : IsParameter arguments parameter) :
      WordsMean (word :: arguments) (some (.operation opcode parameter))

/-- `LineMeans line meaning`: the words of a line before its first `#` have this
meaning. -/
def LineMeans (line : List Char) (meaning : Option Token) : Prop :=
  ∃ words, HasWords (line.takeWhile (· != '#')) words ∧ WordsMean words meaning

/-- The tokens of lines in order, each with the number of its line, of which the first
is `number`. -/
def numbered (number : Nat) (meanings : List (Option Token)) : List ListingEntry :=
  (meanings.zipIdx number).filterMap fun (meaning, line) =>
    meaning.map fun token => { line, token }

/-! ## Numbers that fit -/

/-- An integer is an unsigned word exactly if it is the number of one. -/
theorem unsigned16?_eq_some_iff (n : Int) (word : UInt16) :
    unsigned16? n = some word ↔ n = word.toNat := by
  have hword := word.toNat_lt
  unfold unsigned16?
  constructor
  · intro h
    split at h
    · next hrange =>
      cases h
      have h := uint16_wraps.toNat_ofInt n
      omega
    · cases h
  · rintro rfl
    rw [if_pos (by omega), uint16_wraps.ofInt_toNat]

/-- An integer is a signed word exactly if it is the number of one. -/
theorem signed32?_eq_some_iff (n : Int) (value : Int32) :
    signed32? n = some value ↔ n = value.toInt := by
  have hlow := value.le_toInt
  have hhigh := value.toInt_lt
  unfold signed32?
  constructor
  · intro h
    split at h
    · next hrange =>
      cases h
      exact (Int32.toInt_ofInt_of_le hrange.1 hrange.2).symm
    · cases h
  · rintro rfl
    rw [if_pos (by omega), Int32.ofInt_toInt]

/-- What fits into a field is far below the greatest magnitude that is read, so a word is
read into the field exactly if it denotes what the field then holds. -/
theorem readNumber_eq_ok_iff {α : Type} {quantity : Quantity} {fit? : Int → Option α}
    {value : α → Int} (hfit : ∀ n a, fit? n = some a ↔ n = value a)
    (hsmall : ∀ a, (value a).natAbs ≤ Numeral.maxMagnitude) (word : String) (a : α) :
    readNumber quantity fit? word = .ok a ↔ Denotes word.toList (value a) := by
  unfold readNumber
  constructor
  · intro h
    split at h
    · next n hn =>
      unfold fitted at h
      split at h
      · next b hb =>
        cases h
        rw [← (hfit n a).mp hb]
        exact ((Numeral.read?_eq_some_iff word n).mp hn).1
      · cases h
    · cases h
  · intro h
    rw [(Numeral.read?_eq_some_iff word (value a)).mpr ⟨h, hsmall a⟩]
    simp only [fitted, (hfit (value a) a).mpr rfl]

/-- An unsigned number is read from the numerals of its value and from nothing else. -/
theorem readNumber_unsigned16?_eq_ok_iff (quantity : Quantity) (word : String) (n : UInt16) :
    readNumber quantity unsigned16? word = .ok n ↔ Denotes word.toList n.toNat := by
  refine readNumber_eq_ok_iff unsigned16?_eq_some_iff ?_ word n
  intro a
  have ha := a.toNat_lt
  unfold Numeral.maxMagnitude
  omega

/-- A signed number is read from the numerals of its value and from nothing else. -/
theorem readNumber_signed32?_eq_ok_iff (quantity : Quantity) (word : String) (n : Int32) :
    readNumber quantity signed32? word = .ok n ↔ Denotes word.toList n.toInt := by
  refine readNumber_eq_ok_iff signed32?_eq_some_iff ?_ word n
  intro a
  have hlow := a.le_toInt
  have hhigh := a.toInt_lt
  unfold Numeral.maxMagnitude
  omega

/-- An opcode is read from the numerals of its code and from nothing else. -/
theorem readOpcode_eq_ok_iff (word : String) (opcode : Opcode) :
    readOpcode word = .ok opcode ↔ Denotes word.toList opcode.code.toNat := by
  rw [← readNumber_unsigned16?_eq_ok_iff .opcode]
  obtain ⟨number⟩ := opcode
  unfold readOpcode readNumber
  cases Numeral.read? word with
  | none => simp
  | some n =>
    dsimp only
    cases fitted .opcode unsigned16? word n with
    | error fault => simp [Except.map]
    | ok code => simp [Except.map]

/-! ## Names -/

/-- A word spells a name exactly if it is the name in capitals. -/
theorem spells_iff (word name : String) : Spells word.toList name ↔ word.toUpper = name := by
  rw [Spells, ← String.toList_inj, String.toUpper, String.toList_map]

/-- A numeral begins with a minus sign or a decimal digit. -/
theorem exists_head_of_denotes {word : List Char} {n : Int} (h : Denotes word n) :
    ∃ c rest, word = c :: rest ∧ c.toUpper < 'A' := by
  have every : ∀ (k : Fin 128) (d : Fin 10), (Char.ofNat k).toLower = d.val.digitChar →
      (Char.ofNat k).toUpper < 'A' := by decide +kernel
  cases h with
  | negative magnitude => exact ⟨_, _, rfl, by decide⟩
  | unsigned magnitude =>
    cases magnitude with
    | hexadecimal hmark hne digits => exact ⟨_, _, rfl, by decide⟩
    | decimal hne digits =>
      rcases digits with _ | ⟨hdigit, -⟩
      · exact absurd rfl hne
      · have hupper := every ⟨_, Numeral.toNat_lt_of_isDigit hdigit (by decide)⟩ ⟨_, hdigit.1⟩
        rw [Char.ofNat_toNat] at hupper
        exact ⟨_, _, rfl, hupper hdigit.2⟩

/-- A numeral is no name that begins with a letter. -/
theorem not_spells_of_denotes {word : List Char} {n : Int} (h : Denotes word n) {name : String}
    (hname : name.toList.head?.any ('A' ≤ ·)) : ¬ Spells word name := by
  intro hspells
  obtain ⟨c, rest, rfl, hc⟩ := exists_head_of_denotes h
  rw [← show _ = name.toList from hspells] at hname
  exact absurd (of_decide_eq_true hname) (Char.not_le.mpr hc)

/-- An opcode is found by its mnemonic, in letters of either case. -/
theorem ofMnemonic?_eq_some_iff (word : String) (opcode : Opcode) :
    Opcode.ofMnemonic? word = some opcode ↔ (opcode, word.toUpper) ∈ Opcode.mnemonics := by
  unfold Opcode.ofMnemonic?
  generalize word.toUpper = name
  constructor
  · intro h
    obtain ⟨⟨_, found⟩, hfind, rfl⟩ := Option.map_eq_some_iff.mp h
    have hname := List.find?_some hfind
    rw [← eq_of_beq hname]
    exact List.mem_of_find?_eq_some hfind
  · intro h
    simp only [Opcode.mnemonics, List.mem_cons, Prod.mk.injEq, List.not_mem_nil, or_false] at h
    rcases h with ⟨rfl, rfl⟩ | ⟨rfl, rfl⟩ | ⟨rfl, rfl⟩ | ⟨rfl, rfl⟩ | ⟨rfl, rfl⟩ | ⟨rfl, rfl⟩ |
      ⟨rfl, rfl⟩ | ⟨rfl, rfl⟩ | ⟨rfl, rfl⟩ | ⟨rfl, rfl⟩ <;> decide

/-- `HasForm word form`: a line that begins with this word continues in this form. -/
inductive HasForm : List Char → LineForm → Prop where
  | memory {word : List Char} {kind : VariableKind} (h : Spells word (pushMnemonic kind)) :
      HasForm word (.memory kind)
  | constant {word : List Char} (h : Spells word "PSHN_L") : HasForm word .constant
  | calculation {word : List Char} (h : Spells word "CAL") : HasForm word .calculation
  | operation {word : List Char} {opcode : Opcode} (h : NamesOpcode word opcode) :
      HasForm word (.operation opcode)

/-- A word that spells the mnemonic of an opcode is read as this mnemonic. -/
theorem readMnemonic_of_spells {word name : String} {opcode : Opcode}
    (hname : (opcode, name) ∈ Opcode.mnemonics) (h : Spells word.toList name) :
    readMnemonic word = .ok (.ofOpcode opcode) := by
  have hopcode : Opcode.ofMnemonic? word = some opcode := by
    rw [ofMnemonic?_eq_some_iff, (spells_iff word name).mp h]
    exact hname
  rw [readMnemonic, hopcode]

/-- A numeral is not read as a mnemonic, even as the number of an opcode that has one. -/
theorem readMnemonic_of_denotes {word : String} {opcode : Opcode}
    (h : Denotes word.toList opcode.code.toNat) : readMnemonic word = .ok (.operation opcode) := by
  have hnone : Opcode.ofMnemonic? word = none := by
    have hletter : ∀ entry ∈ Opcode.mnemonics, entry.2.toList.head?.any ('A' ≤ ·) := by decide
    rw [Option.eq_none_iff_forall_ne_some]
    intro other hother
    have hmem := (ofMnemonic?_eq_some_iff word other).mp hother
    exact not_spells_of_denotes h (hletter _ hmem) ((spells_iff word _).mpr rfl)
  rw [readMnemonic, hnone]
  simp only [(readOpcode_eq_ok_iff word opcode).mpr h, Except.map]

/-- The opcode that pushes a variable of some kind has the mnemonic of this kind. -/
theorem pushOpcode_mem_mnemonics (kind : VariableKind) :
    (kind.pushOpcode, pushMnemonic kind) ∈ Opcode.mnemonics := by
  cases kind <;> decide

/-- The first word of a line is read as the form that the grammar gives it. -/
theorem readMnemonic_eq_ok_iff (word : String) (form : LineForm) :
    readMnemonic word = .ok form ↔ HasForm word.toList form := by
  constructor
  · intro h
    unfold readMnemonic at h
    split at h
    · next opcode hopcode =>
      cases h
      rw [ofMnemonic?_eq_some_iff] at hopcode
      have hspells := (spells_iff word _).mpr rfl
      generalize word.toUpper = name at hopcode hspells
      simp only [Opcode.mnemonics, List.mem_cons, Prod.mk.injEq, List.not_mem_nil, or_false]
        at hopcode
      rcases hopcode with ⟨rfl, rfl⟩ | ⟨rfl, rfl⟩ | ⟨rfl, rfl⟩ | ⟨rfl, rfl⟩ | ⟨rfl, rfl⟩ |
        ⟨rfl, rfl⟩ | ⟨rfl, rfl⟩ | ⟨rfl, rfl⟩ | ⟨rfl, rfl⟩ | ⟨rfl, rfl⟩
      · exact .operation (.nop hspells)
      · exact .calculation hspells
      · exact .constant hspells
      · exact @HasForm.memory _ .byte hspells
      · exact @HasForm.memory _ .word hspells
      · exact @HasForm.memory _ .long hspells
      · exact @HasForm.memory _ .signedByte hspells
      · exact @HasForm.memory _ .signedWord hspells
      · exact @HasForm.memory _ .signedLong hspells
      · exact .operation (.battle hspells)
    · cases hopcode : readOpcode word with
      | error fault =>
        rw [hopcode] at h
        cases h
      | ok opcode =>
        rw [hopcode] at h
        cases h
        exact .operation (.number ((readOpcode_eq_ok_iff word opcode).mp hopcode))
  · intro h
    cases h with
    | @memory kind hspells =>
      have hform := readMnemonic_of_spells (pushOpcode_mem_mnemonics kind) hspells
      rwa [LineForm.ofOpcode, (VariableKind.ofPushOpcode?_eq_some_iff _ kind).mpr rfl] at hform
    | constant hspells =>
      exact @readMnemonic_of_spells _ _ .pushConstant (by decide) hspells
    | calculation hspells =>
      exact @readMnemonic_of_spells _ _ .calculate (by decide) hspells
    | operation hnames =>
      cases hnames with
      | nop hspells => exact @readMnemonic_of_spells _ _ .nop (by decide) hspells
      | battle hspells => exact @readMnemonic_of_spells _ _ .battle (by decide) hspells
      | number hdenotes => exact readMnemonic_of_denotes hdenotes

/-! ## Arguments -/

/-- A calculation is found by its mnemonic, in letters of either case. -/
theorem calculation_ofMnemonic?_eq_some_iff (word : String) (op : Calculation) :
    Calculation.ofMnemonic? word = some op ↔ Spells word.toList op.mnemonic := by
  rw [spells_iff]
  unfold Calculation.ofMnemonic?
  constructor
  · intro h
    have hname := List.find?_some h
    exact (eq_of_beq hname).symm
  · intro h
    rw [h]
    cases op <;> decide

/-- A calculation is read by its mnemonic or its number, which no word is both. -/
theorem readCalculation_eq_ok_iff (word : String) (op : Calculation) :
    readCalculation word = .ok op ↔
      Spells word.toList op.mnemonic ∨ Denotes word.toList op.number := by
  have hread : readCalculation word = .ok op ↔
      (Calculation.ofMnemonic? word).or ((Numeral.read? word).bind Calculation.ofNumber?) =
        some op := by
    unfold readCalculation
    generalize (Calculation.ofMnemonic? word).or _ = found
    cases found <;> simp
  rw [hread, Option.or_eq_some_iff, calculation_ofMnemonic?_eq_some_iff]
  have hnumber : (Numeral.read? word).bind Calculation.ofNumber? = some op ↔
      Denotes word.toList op.number := by
    rw [Option.bind_eq_some_iff]
    constructor
    · rintro ⟨n, hn, hop⟩
      rw [← (Calculation.ofNumber?_eq_some_iff n op).mp hop]
      exact ((Numeral.read?_eq_some_iff word n).mp hn).1
    · intro h
      refine ⟨op.number, (Numeral.read?_eq_some_iff word _).mpr ⟨h, ?_⟩,
        (Calculation.ofNumber?_eq_some_iff _ op).mpr rfl⟩
      cases op <;> decide
  rw [hnumber]
  constructor
  · rintro (h | ⟨-, h⟩)
    · exact .inl h
    · exact .inr h
  · rintro (h | h)
    · exact .inl h
    · refine .inr ⟨?_, h⟩
      have hletter : ∀ other : Calculation, other.mnemonic.toList.head?.any ('A' ≤ ·) := by
        intro other
        cases other <;> decide
      rw [Option.eq_none_iff_forall_ne_some]
      intro other hother
      exact not_spells_of_denotes h (hletter other)
        ((calculation_ofMnemonic?_eq_some_iff word other).mp hother)

/-- One argument is one word, no less and no more. -/
theorem onlyArgument_eq_ok_iff (mnemonic : String) (arguments : List String) (word : String) :
    onlyArgument mnemonic arguments = .ok word ↔ arguments = [word] := by
  unfold onlyArgument
  split <;> simp_all

/-- The parameter of an instruction is read as the grammar has it, and is zero if it is not there.
-/
theorem readParameter_eq_ok_iff (mnemonic : String) (arguments : List String)
    (parameter : Int32) :
    readParameter mnemonic arguments = .ok parameter ↔
      IsParameter (arguments.map String.toList) parameter := by
  unfold readParameter
  split
  · constructor
    · intro h
      cases h
      exact .absent
    · intro h
      cases h
      rfl
  · rw [readNumber_signed32?_eq_ok_iff]
    constructor
    · intro h
      exact .given h
    · intro h
      cases h with
      | given hword => exact hword
  · next words hnil hsingleton =>
    constructor
    · intro h
      cases h
    · intro h
      rcases arguments with _ | ⟨first, _ | ⟨second, rest⟩⟩
      · exact absurd rfl hnil
      · exact absurd rfl (hsingleton first)
      · cases h

/-! ## Lines -/

/-- What the words behind a first word of a known form have to be. -/
theorem readWords_eq_ok_iff (mnemonic : String) (arguments : List String) (token : Token) :
    readWords mnemonic arguments = .ok token ↔
      WordsMean (mnemonic.toList :: arguments.map String.toList) (some token) := by
  unfold readWords
  rw [bind_eq_ok_iff]
  constructor
  · rintro ⟨form, hform, h⟩
    rw [readMnemonic_eq_ok_iff] at hform
    cases hform with
    | memory hspells =>
      obtain ⟨word, hword, h⟩ := bind_eq_ok_iff.mp h
      obtain ⟨address, haddress, h⟩ := bind_eq_ok_iff.mp h
      rw [onlyArgument_eq_ok_iff] at hword
      rw [readNumber_unsigned16?_eq_ok_iff] at haddress
      cases h
      rw [hword]
      exact .memory hspells haddress
    | constant hspells =>
      obtain ⟨word, hword, h⟩ := bind_eq_ok_iff.mp h
      obtain ⟨value, hvalue, h⟩ := bind_eq_ok_iff.mp h
      rw [onlyArgument_eq_ok_iff] at hword
      rw [readNumber_signed32?_eq_ok_iff] at hvalue
      cases h
      rw [hword]
      exact .constant hspells hvalue
    | calculation hspells =>
      obtain ⟨word, hword, h⟩ := bind_eq_ok_iff.mp h
      obtain ⟨op, hop, h⟩ := bind_eq_ok_iff.mp h
      rw [onlyArgument_eq_ok_iff] at hword
      rw [readCalculation_eq_ok_iff] at hop
      cases h
      rw [hword]
      exact .calculation hspells hop
    | operation hnames =>
      obtain ⟨parameter, hparameter, h⟩ := bind_eq_ok_iff.mp h
      rw [readParameter_eq_ok_iff] at hparameter
      cases h
      exact .operation hnames hparameter
  · intro h
    -- the first word decides the form, and an only argument is read as the form says
    generalize hwords : arguments.map String.toList = words at h
    cases h with
    | @memory _ word kind address hspells hdenotes =>
      obtain ⟨argument, rfl, rfl⟩ := List.map_eq_singleton_iff.mp hwords
      refine ⟨_, (readMnemonic_eq_ok_iff _ _).mpr (.memory hspells), ?_⟩
      refine bind_eq_ok_iff.mpr ⟨argument, rfl, bind_eq_ok_iff.mpr ⟨address, ?_, rfl⟩⟩
      exact (readNumber_unsigned16?_eq_ok_iff _ _ _).mpr hdenotes
    | @constant _ word value hspells hdenotes =>
      obtain ⟨argument, rfl, rfl⟩ := List.map_eq_singleton_iff.mp hwords
      refine ⟨_, (readMnemonic_eq_ok_iff _ _).mpr (.constant hspells), ?_⟩
      refine bind_eq_ok_iff.mpr ⟨argument, rfl, bind_eq_ok_iff.mpr ⟨value, ?_, rfl⟩⟩
      exact (readNumber_signed32?_eq_ok_iff _ _ _).mpr hdenotes
    | @calculation _ word op hspells hword =>
      obtain ⟨argument, rfl, rfl⟩ := List.map_eq_singleton_iff.mp hwords
      refine ⟨_, (readMnemonic_eq_ok_iff _ _).mpr (.calculation hspells), ?_⟩
      refine bind_eq_ok_iff.mpr ⟨argument, rfl, bind_eq_ok_iff.mpr ⟨op, ?_, rfl⟩⟩
      exact (readCalculation_eq_ok_iff _ _).mpr hword
    | @operation _ _ opcode parameter hnames hparameter =>
      subst hwords
      refine ⟨_, (readMnemonic_eq_ok_iff _ _).mpr (.operation hnames), ?_⟩
      refine bind_eq_ok_iff.mpr ⟨parameter, ?_, rfl⟩
      exact (readParameter_eq_ok_iff _ _ _).mpr hparameter

/-- What a line means is what its words mean. -/
theorem lineMeans_iff (line : String) (meaning : Option Token) :
    LineMeans line.toList meaning ↔ WordsMean ((lineWords line).map String.toList) meaning := by
  have hwords : (lineWords line).map String.toList =
      Text.wordChars (line.toList.takeWhile (· != '#')) := by
    simp [lineWords, uncommented, Function.comp_def]
  rw [hwords]
  constructor
  · rintro ⟨words, hhas, h⟩
    rwa [(Text.wordChars_eq_iff _ _).mpr hhas]
  · intro h
    exact ⟨_, (Text.wordChars_eq_iff _ _).mp rfl, h⟩

/-- A line is read as what it means. -/
theorem readLine_eq_ok_iff (line : String) (meaning : Option Token) :
    readLine line = .ok meaning ↔ LineMeans line.toList meaning := by
  rw [lineMeans_iff]
  unfold readLine
  cases lineWords line with
  | nil =>
    constructor
    · intro h
      cases h
      exact .blank
    · intro h
      cases h
      rfl
  | cons mnemonic arguments =>
    constructor
    · intro h
      cases htoken : readWords mnemonic arguments with
      | error fault =>
        simp only [htoken] at h
        cases h
      | ok token =>
        simp only [htoken] at h
        cases h
        exact (readWords_eq_ok_iff _ _ _).mp htoken
    · intro h
      cases meaning with
      | none =>
        generalize hcons : (mnemonic :: arguments).map String.toList = words at h
        cases h
        cases hcons
      | some token =>
        simp only [(readWords_eq_ok_iff _ _ _).mpr h]
        rfl

/-! ## Listings -/

/-- A line without a token takes a number and no entry. -/
theorem numbered_cons_none (number : Nat) (meanings : List (Option Token)) :
    numbered number (none :: meanings) = numbered (number + 1) meanings := by
  rw [numbered, List.zipIdx_cons, List.filterMap_cons_none rfl, numbered]

/-- A line with a token is an entry with its number. -/
theorem numbered_cons_some (number : Nat) (token : Token) (meanings : List (Option Token)) :
    numbered number (some token :: meanings) =
      { line := number, token } :: numbered (number + 1) meanings := by
  rw [numbered, List.zipIdx_cons, List.filterMap_cons]
  rfl

/-- Lines are read if each of them is, and give the tokens of those that have one. -/
theorem readFrom_eq_ok_iff (number : Nat) (lines : List String) (entries : List ListingEntry) :
    readFrom number lines = .ok entries ↔
      ∃ meanings, List.Forall₂ (fun line meaning => readLine line = .ok meaning) lines meanings ∧
        entries = numbered number meanings := by
  induction lines generalizing number entries with
  | nil =>
    constructor
    · intro h
      cases h
      exact ⟨[], .nil, rfl⟩
    · rintro ⟨meanings, hmeanings, rfl⟩
      cases hmeanings
      rfl
  | cons line rest ih =>
    constructor
    · intro h
      unfold readFrom at h
      split at h
      · cases h
      · next hline =>
        obtain ⟨meanings, hmeanings, rfl⟩ := (ih _ _).mp h
        exact ⟨none :: meanings, .cons hline hmeanings, (numbered_cons_none _ _).symm⟩
      · next token hline =>
        cases hrest : readFrom (number + 1) rest with
        | error error =>
          rw [hrest] at h
          cases h
        | ok tail =>
          rw [hrest] at h
          cases h
          obtain ⟨meanings, hmeanings, rfl⟩ := (ih _ _).mp hrest
          exact ⟨some token :: meanings, .cons hline hmeanings, (numbered_cons_some _ _ _).symm⟩
    · rintro ⟨_, hmeanings, rfl⟩
      cases hmeanings with
      | @cons _ meaning _ meanings hline hrest =>
        have htail := (ih (number + 1) _).mpr ⟨meanings, hrest, rfl⟩
        cases meaning with
        | none =>
          simp only [readFrom, hline, htail, numbered_cons_none]
        | some token =>
          simp only [readFrom, hline, htail, numbered_cons_some]
          rfl

/-- The first line that is not read ends the reading with its number. -/
theorem readFrom_eq_error_iff (number : Nat) (lines : List String) (error : ListingError) :
    readFrom number lines = .error error ↔
      ∃ before line after,
        lines = before ++ line :: after ∧
        error.line = number + before.length ∧
        readLine line = .error error.fault ∧
        ∀ previous ∈ before, ∃ meaning, readLine previous = .ok meaning := by
  induction lines generalizing number with
  | nil =>
    constructor
    · intro h
      cases h
    · rintro ⟨before, line, after, h, -⟩
      simp at h
  | cons first rest ih =>
    -- a line that is read leaves the fault to the lines behind it
    have hread : ∀ meaning, readLine first = .ok meaning →
        (readFrom number (first :: rest) = .error error ↔
          readFrom (number + 1) rest = .error error) := by
      intro meaning hfirst
      cases meaning with
      | none => simp only [readFrom, hfirst]
      | some token =>
        simp only [readFrom, hfirst]
        cases readFrom (number + 1) rest <;> simp [Except.map]
    constructor
    · intro h
      cases hfirst : readLine first with
      | error fault =>
        simp only [readFrom, hfirst] at h
        cases h
        exact ⟨[], first, rest, rfl, rfl, hfirst, by simp⟩
      | ok meaning =>
        obtain ⟨before, line, after, rfl, hnumber, hline, hbefore⟩ :=
          (ih (number + 1)).mp ((hread meaning hfirst).mp h)
        refine ⟨first :: before, line, after, rfl, ?_, hline, ?_⟩
        · rw [List.length_cons]
          omega
        · intro previous hprevious
          rcases List.mem_cons.mp hprevious with rfl | hprevious
          · exact ⟨meaning, hfirst⟩
          · exact hbefore previous hprevious
    · rintro ⟨before, line, after, hlines, hnumber, hline, hbefore⟩
      cases before with
      | nil =>
        cases hlines
        simp only [readFrom, hline]
        rw [List.length_nil, Nat.add_zero] at hnumber
        rw [← hnumber]
      | cons head before =>
        cases hlines
        obtain ⟨meaning, hfirst⟩ := hbefore first List.mem_cons_self
        refine (hread meaning hfirst).mpr ((ih (number + 1)).mpr ⟨before, line, after, rfl, ?_,
          hline, fun previous hprevious => hbefore previous (List.mem_cons_of_mem _ hprevious)⟩)
        rw [List.length_cons] at hnumber
        omega

/-- A text is read as a listing by reading its lines from the first on. -/
theorem parse_eq_ok_iff (source : String) (listing : Listing) :
    parse source = .ok listing ↔ readFrom 1 (Text.lines source) = .ok listing.entries := by
  unfold parse
  cases readFrom 1 (Text.lines source) with
  | error error => simp [Except.map]
  | ok entries =>
    obtain ⟨found⟩ := listing
    simp [Except.map]

/-- The fault of a text is that of its lines from the first on. -/
theorem parse_eq_error_iff (source : String) (error : ListingError) :
    parse source = .error error ↔ readFrom 1 (Text.lines source) = .error error := by
  unfold parse
  cases readFrom 1 (Text.lines source) <;> simp [Except.map]

/-- A text is read as a listing exactly if each of its lines means something, and the entries are
what the lines mean under their numbers. -/
theorem parse_eq_ok_iff_lineMeans (source : String) (listing : Listing) :
    parse source = .ok listing ↔
      ∃ meanings, List.Forall₂ LineMeans (Text.lineChars source.toList) meanings ∧
        listing.entries = numbered 1 meanings := by
  rw [parse_eq_ok_iff, readFrom_eq_ok_iff]
  simp only [readLine_eq_ok_iff, Text.lines, List.forall₂_map_left_iff, String.toList_ofList]

/-- Partners for a whole list are found one by one. -/
theorem exists_forall₂_iff {α β : Type} {R : α → β → Prop} (as : List α) :
    (∃ bs, List.Forall₂ R as bs) ↔ ∀ a ∈ as, ∃ b, R a b := by
  induction as with
  | nil => exact iff_of_true ⟨[], .nil⟩ (by simp)
  | cons a as ih =>
    rw [List.forall_mem_cons, ← ih]
    constructor
    · rintro ⟨_, h⟩
      cases h with
      | cons hb hbs => exact ⟨⟨_, hb⟩, _, hbs⟩
    · rintro ⟨⟨b, hb⟩, bs, hbs⟩
      exact ⟨b :: bs, .cons hb hbs⟩

/-- A text is a listing exactly if each of its lines belongs to the grammar, and it is
then the listing of the tokens that its lines mean, in order and with their numbers. -/
theorem parse_iff_grammar (source : String) :
    ∃ lines, (∀ others, HasLines source.toList others ↔ others = lines) ∧
      ((∃ listing, parse source = .ok listing) ↔
        ∀ line ∈ lines, ∃ meaning, LineMeans line meaning) ∧
      ∀ listing, parse source = .ok listing ↔
        ∃ meanings, List.Forall₂ LineMeans lines meanings ∧
          listing.entries = numbered 1 meanings := by
  refine ⟨Text.lineChars source.toList, ?_, ?_, parse_eq_ok_iff_lineMeans source⟩
  · intro others
    rw [← Text.lineChars_eq_iff, eq_comm]
  · simp only [parse_eq_ok_iff_lineMeans, ← exists_forall₂_iff]
    constructor
    · rintro ⟨listing, meanings, hmeanings, -⟩
      exact ⟨meanings, hmeanings⟩
    · rintro ⟨meanings, hmeanings⟩
      exact ⟨⟨numbered 1 meanings⟩, meanings, hmeanings, rfl⟩

end EventScript.Listing
