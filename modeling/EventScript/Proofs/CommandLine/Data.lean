import EventScript.CommandLine.Report
import EventScript.Proofs.Instruction.Readability
import EventScript.Proofs.Json.Readability
import EventScript.Script.Decode

/-!
# Reading data back

A script as data is a document whose strings are all plain, those of messages included, which
show expressions of any depth. It holds each instruction by its fields and each failure that was
passed over by its index and its wording, so it is lost what caused a failure and nothing else.
-/

set_option autoImplicit false

namespace EventScript

/-! ## Messages -/

/-- The sign of a calculation needs no escape. -/
theorem Calculation.plain_symbol (op : Calculation) : Text.Plain op.symbol := by
  cases op <;> decide

/-- The text of a variable needs no escape. -/
theorem Variable.plain_text (v : Variable) : Text.Plain v.text := by
  have hstem : Text.Plain v.kind.stem := by cases v.kind <;> decide
  exact ((hstem.append (by decide)).append (Numeral.plain_hex 4 _)).append (by decide)

/-- The text of an expression needs no escape, however deep it is. -/
theorem Expression.plain_text (e : Expression) : Text.Plain e.text := by
  induction e with
  | constant value => exact Numeral.plain_ofInt value.toInt
  | memory v => exact v.plain_text
  | unary op operand ih => exact op.plain_symbol.append ih
  | binary op left right ihLeft ihRight =>
    have hopening : Text.Plain "(" := by decide
    have hleft := (hopening.append ihLeft).append (by decide : Text.Plain " ")
    have hsymbol := (hleft.append op.plain_symbol).append (by decide : Text.Plain " ")
    exact (hsymbol.append ihRight).append (by decide)

/-- The text of an opcode needs no escape, whether it has a mnemonic or not. -/
theorem Opcode.plain_text (opcode : Opcode) : Text.Plain opcode.text := by
  have every : ∀ entry ∈ mnemonics, Text.Plain entry.2 := by decide
  have hnumber : Text.Plain opcode.number := Numeral.plain_hex 3 _
  unfold text
  split
  · next mnemonic hmnemonic =>
    obtain ⟨before, after, hentries, -⟩ := List.lookup_eq_some_iff.mp hmnemonic
    have hmem : (opcode, mnemonic) ∈ mnemonics := by
      rw [hentries]
      exact List.mem_append_right _ List.mem_cons_self
    exact (((every _ hmem).append (by decide)).append hnumber).append (by decide)
  · exact hnumber

/-- The message of a decode error needs no escape, since what it quotes needs none. -/
theorem DecodeError.plain_message (error : DecodeError) : Text.Plain error.message := by
  cases error with
  | stackUnderflow opcode needed available =>
    have hopening : Text.Plain "stack underflow decoding " := by decide
    have hopcode := (hopening.append opcode.plain_text).append (by decide : Text.Plain ": needs ")
    have hneeded := (hopcode.append (Numeral.plain_ofNat needed)).append
      (by decide : Text.Plain " operand(s), ")
    exact (hneeded.append (Numeral.plain_ofNat available)).append (by decide)
  | invalidOperand opcode operand =>
    have hopening : Text.Plain "invalid operand for " := by decide
    have hkind : Text.Plain operand.kind.name := by cases operand.kind <;> decide
    have hopcode := (hopening.append opcode.plain_text).append
      (by decide : Text.Plain ": expected a constant, found ")
    have hfound := (hopcode.append hkind).append (by decide : Text.Plain " `")
    exact (hfound.append operand.plain_text).append (by decide)
  | unknownOpcode opcode =>
    have hopening : Text.Plain "unknown opcode " := by decide
    exact hopening.append opcode.plain_text

/-! ## Strings of documents -/

namespace Json

mutual

/-- The strings of a document in the order in which they are written, names of fields included. -/
def strings : Json → List String
  | .null => []
  | .number _ => []
  | .string value => [value]
  | .array items => itemStrings items
  | .object fields => fieldStrings fields

/-- The strings of the items of an array. -/
def itemStrings : List Json → List String
  | [] => []
  | item :: items => item.strings ++ itemStrings items

/-- The names of the fields of an object and the strings of their values. -/
def fieldStrings : List (String × Json) → List String
  | [] => []
  | (name, value) :: fields => name :: (value.strings ++ fieldStrings fields)

end

/-- Whether every string of a document is plain. -/
def Plain (document : Json) : Prop := ∀ text ∈ document.strings, Text.Plain text

variable {items : List Json} {fields : List (String × Json)}

/-- The document of a number holds no string. -/
theorem plain_ofNat (n : Nat) : (ofNat n).Plain := by
  simp [Plain, ofNat, strings]

/-- A string is a plain document exactly if its text is plain. -/
theorem plain_string_iff {text : String} : (string text).Plain ↔ Text.Plain text := by
  simp [Plain, strings]

/-- An array is plain exactly if all of its items are. -/
theorem plain_array_iff : (array items).Plain ↔ ∀ item ∈ items, item.Plain := by
  induction items with
  | nil => simp [Plain, strings, itemStrings]
  | cons item items ih =>
    simp only [Plain, strings, itemStrings, List.forall_mem_append, List.forall_mem_cons] at ih ⊢
    rw [ih]

/-- An object without fields is plain. -/
theorem plain_object_nil : (object []).Plain := nofun

/-- An object is plain exactly if the names and the values of its fields are. -/
theorem plain_object_cons_iff {name : String} {value : Json} :
    (object ((name, value) :: fields)).Plain ↔
      Text.Plain name ∧ value.Plain ∧ (object fields).Plain := by
  simp only [Plain, strings, fieldStrings, List.forall_mem_append, List.forall_mem_cons]

/-- An array of the documents of values is plain exactly if each of these is. -/
theorem plain_array_map_iff {α : Type} {f : α → Json} {xs : List α} :
    (array (xs.map f)).Plain ↔ ∀ x ∈ xs, (f x).Plain := by
  rw [plain_array_iff, List.forall_mem_map]

/-- A plain text stands between quotation marks as it is. -/
theorem quoted_of_plain {text : String} (h : Text.Plain text) :
    quoted text = "\"" ++ text ++ "\"" := by
  have hescaped : ∀ c ∈ text.toList, escaped c = [c] := by
    intro c hc
    have hplain := h c hc
    simp only [Text.isPlain, Text.isControl, Bool.and_eq_true, bne_iff_ne, Bool.not_eq_true',
      Bool.or_eq_false_iff, decide_eq_false_iff_not, Nat.not_lt] at hplain
    exact escaped_of_plain hplain.1.1 hplain.1.2 hplain.2.1
  rw [quoted, List.flatMap_congr hescaped, List.flatMap_singleton', String.ofList_toList]

end Json

/-! ## The forms of values -/

namespace BattleFlags

/-- The document of battle flags is plain. -/
theorem plain_toJson (flags : BattleFlags) : flags.toJson.Plain := by
  have hnames : (Json.ofStrings flags.names).Plain := by
    rw [Json.ofStrings, Json.plain_array_map_iff]
    intro name hname
    obtain ⟨flag, -, rfl⟩ := List.mem_map.mp hname
    exact Json.plain_string_iff.mpr flag.plain_name
  rw [toJson, Json.plain_object_cons_iff, Json.plain_object_cons_iff]
  exact ⟨by decide, Json.plain_ofNat _, by decide, hnames, Json.plain_object_nil⟩

/-- The byte of a set of flags alone tells which set it is. -/
theorem toJson_inj {flags flags' : BattleFlags} (h : flags.toJson = flags'.toJson) :
    flags = flags' := by
  have hbits : flags.bits.toNat = flags'.bits.toNat := by
    simp only [toJson, Json.ofNat, Json.object.injEq, List.cons.injEq, Prod.mk.injEq,
      Json.number.injEq, Int.ofNat_inj] at h
    exact h.1.2
  obtain ⟨bits⟩ := flags
  obtain ⟨bits'⟩ := flags'
  cases UInt8.toNat_inj.mp hbits
  rfl

end BattleFlags

namespace Instruction

/-- The document of an instruction is plain. -/
theorem plain_toJson (i : Instruction) : i.toJson.Plain := by
  cases i with
  | nop =>
    rw [toJson, Json.plain_object_cons_iff, Json.plain_string_iff]
    exact ⟨by decide, by decide, Json.plain_object_nil⟩
  | battle b =>
    rw [toJson, Battle.jsonFields, Json.plain_object_cons_iff, Json.plain_object_cons_iff,
      Json.plain_object_cons_iff, Json.plain_string_iff]
    exact ⟨by decide, by decide, by decide, Json.plain_ofNat _, by decide, b.flags.plain_toJson,
      Json.plain_object_nil⟩

/-- An instruction is read back from its document. -/
theorem toJson_inj {i i' : Instruction} (h : i.toJson = i'.toJson) : i = i' := by
  cases i with
  | nop =>
    cases i' with
    | nop => rfl
    | battle b' => simp [toJson] at h
  | battle b =>
    cases i' with
    | nop => simp [toJson] at h
    | battle b' =>
      simp only [toJson, Battle.jsonFields, Json.ofNat, Json.object.injEq, List.cons.injEq,
        Prod.mk.injEq, Json.number.injEq, Int.ofNat_inj, true_and, and_true] at h
      obtain ⟨encounter, flags⟩ := b
      cases UInt16.toNat_inj.mp h.1
      cases BattleFlags.toJson_inj h.2
      rfl

end Instruction

namespace Diagnostic

/-- What data tells of a failure that was passed over: its index and its wording. -/
def report (diagnostic : Diagnostic) : Nat × String := (diagnostic.index, diagnostic.error.message)

/-- The document of a failure that was passed over is plain, its message included. -/
theorem plain_toJson (diagnostic : Diagnostic) : diagnostic.toJson.Plain := by
  rw [toJson, Json.plain_object_cons_iff, Json.plain_object_cons_iff, Json.plain_string_iff]
  exact ⟨by decide, Json.plain_ofNat _, by decide, diagnostic.error.plain_message,
    Json.plain_object_nil⟩

/-- The documents of two failures are equal exactly if both their positions and their messages are.
-/
theorem toJson_eq_iff {diagnostic other : Diagnostic} :
    diagnostic.toJson = other.toJson ↔ diagnostic.report = other.report := by
  simp [toJson, report, Json.ofNat]

end Diagnostic

namespace Script

/-- The document of a script is plain. -/
theorem plain_toJson (script : Script) : script.toJson.Plain := by
  rw [toJson, Json.plain_object_cons_iff, Json.plain_object_cons_iff,
    Json.plain_object_cons_iff, Json.plain_array_map_iff, Json.plain_array_map_iff]
  exact ⟨by decide, fun i _ => i.plain_toJson,
    by decide, fun diagnostic _ => diagnostic.plain_toJson,
    by decide, Json.plain_ofNat _, Json.plain_object_nil⟩

/-- The documents of two scripts are equal exactly if the scripts agree on everything but what
caused the failures that were passed over. -/
theorem toJson_eq_iff {script other : Script} : script.toJson = other.toJson ↔
    script.instructions = other.instructions ∧ script.leftover = other.leftover ∧
      script.diagnostics.map Diagnostic.report = other.diagnostics.map Diagnostic.report := by
  have hinstructions : script.instructions.map Instruction.toJson =
      other.instructions.map Instruction.toJson ↔ script.instructions = other.instructions :=
    List.map_inj_right fun _ _ => Instruction.toJson_inj
  have hdiagnostics : script.diagnostics.map Diagnostic.toJson =
      other.diagnostics.map Diagnostic.toJson ↔
      script.diagnostics.map Diagnostic.report = other.diagnostics.map Diagnostic.report := by
    -- messages do not determine errors, so the lists are compared item by item
    simp only [← List.forall₂_eq_eq_eq, List.forall₂_map_left_iff, List.forall₂_map_right_iff,
      Diagnostic.toJson_eq_iff]
  simp only [toJson, Json.ofNat, Json.object.injEq, List.cons.injEq, Prod.mk.injEq,
    Json.array.injEq, Json.number.injEq, Int.ofNat_inj, true_and, and_true, hinstructions,
    hdiagnostics]
  tauto

end Script

/-! ## The text of a script as data -/

namespace CommandLine

open EventScript.Text (unlines)

/-- The printed text of a document is read back as the document. -/
theorem unlines_data_inj {script other : Script}
    (h : unlines (Report.data script) = unlines (Report.data other)) :
    script.toJson = other.toJson := by
  have hline : ∀ script : Script, unlines (Report.data script) = script.toJson.pretty ++ "\n" :=
    fun _ => rfl
  rw [hline, hline] at h
  exact Json.pretty_injective ((String.append_left_inj _).mp h)

/-- In the text of a script as data nothing is escaped, and nothing is lost but what caused a
failure: every string is plain and is written as it is, and the texts of two scripts are equal if
and only if the scripts have the same instructions, as many operands left, and failures with the
same indices and messages. -/
theorem data_plain_and_readable :
    (∀ script : Script, ∀ text ∈ script.toJson.strings,
      Text.Plain text ∧ Json.quoted text = "\"" ++ text ++ "\"") ∧
    ∀ script other : Script,
      unlines (Report.data script) = unlines (Report.data other) ↔
        script.instructions = other.instructions ∧ script.leftover = other.leftover ∧
          script.diagnostics.map Diagnostic.report = other.diagnostics.map Diagnostic.report := by
  constructor
  · intro script text htext
    have hplain := script.plain_toJson text htext
    exact ⟨hplain, Json.quoted_of_plain hplain⟩
  · intro script other
    constructor
    · intro h
      exact Script.toJson_eq_iff.mp (unlines_data_inj h)
    · intro h
      rw [Report.data, Report.data, Script.toJson_eq_iff.mpr h]

/-- A battle whose encounter is a sum. -/
def spoiltBattle (summands : List Token) : List Token :=
  summands ++ [.calculation .add, .constant 0, .operation .battle 0]

/-- What is said of a battle whose encounter is the sum of two negative numbers. -/
def sumFound : String :=
  "invalid operand for BATTLE (0x069): expected a constant, found computed `(-3 + -4)`"

/-- A negated constant and a negative one are different operands with the same text. -/
theorem data_plain_and_readable_spoiltBattles :
    ∃ first second third : Script,
      Script.decode .skip
        (spoiltBattle [.constant 3, .calculation .neg, .constant (-4)]) = .ok first ∧
      Script.decode .skip
        (spoiltBattle [.constant (-3), .constant 4, .calculation .neg]) = .ok second ∧
      Script.decode .skip
        (spoiltBattle [.constant 3, .calculation .neg, .constant 4]) = .ok third ∧
      first ≠ second ∧
      sumFound ∈ first.toJson.strings ∧
      (Text.Plain sumFound ∧ Json.quoted sumFound = "\"" ++ sumFound ++ "\"") ∧
      unlines (Report.data first) = unlines (Report.data second) ∧
      unlines (Report.data first) ≠ unlines (Report.data third) := by
  obtain ⟨hstrings, htexts⟩ := data_plain_and_readable
  refine ⟨_, _, _, rfl, rfl, rfl, by decide, ?found, hstrings _ _ ?found, ?_, ?_⟩
  · decide
  · exact (htexts _ _).mpr (by decide)
  · exact mt (htexts _ _).mp (by decide)

end CommandLine

end EventScript
