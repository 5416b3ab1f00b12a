import EventScript.Instruction
import EventScript.Proofs.Text.Plain

/-!
# Reading instructions back

The text of an instruction tells which instruction it is. A set of flags is read back from the
names of its members, which have no blank in them and so end where the next separator begins;
the encounter of a battle is read back from its digits.
-/

set_option autoImplicit false

namespace EventScript

/-! ## Flags -/

namespace BattleFlag

variable {flag flag' : BattleFlag}

/-- Flags are found by their names. -/
theorem find?_name (flag : BattleFlag) :
    all.find? (fun other => other.name == flag.name) = some flag := by
  cases flag <;> rfl

/-- A battle flag is read back from its name. -/
theorem name_inj (h : flag.name = flag'.name) : flag = flag' := by
  have hfind := flag.find?_name
  rw [h, flag'.find?_name] at hfind
  exact (Option.some.inj hfind).symm

/-- The name of a battle flag needs no escape. -/
theorem plain_name (flag : BattleFlag) : Text.Plain flag.name := by
  cases flag <;> decide

/-- No name of a battle flag has a blank in it. -/
theorem blank_not_mem_name (flag : BattleFlag) : ' ' ∉ flag.name.toList := by
  cases flag <;> decide

/-- No battle flag is named as a battle without flags is. -/
theorem name_ne_regular (flag : BattleFlag) : flag.name ≠ "Regular_battle" := by
  cases flag <;> decide

end BattleFlag

namespace BattleFlags

variable {flags flags' : BattleFlags}

/-- The set that has these members. -/
def ofList (members : List BattleFlag) : BattleFlags :=
  members.foldl (fun flags flag => flags ∪ single flag) regular

/-- A set of flags is made up of its members. -/
theorem ofList_toList (flags : BattleFlags) : ofList flags.toList = flags := by
  have every : ∀ n : Fin 256,
      ofList (⟨UInt8.ofFin n⟩ : BattleFlags).toList = ⟨UInt8.ofFin n⟩ := by decide +kernel
  exact every flags.bits.toFin

/-- Battle flags are read back from their names. -/
theorem names_inj (h : flags.names = flags'.names) : flags = flags' := by
  have hmembers := (List.map_inj_right fun _ _ => BattleFlag.name_inj).mp h
  rw [← ofList_toList flags, hmembers, ofList_toList]

/-- The words of the text of a set of flags. -/
def labels (flags : BattleFlags) : List String :=
  if flags.isEmpty then ["Regular_battle"] else flags.names

/-- The text of battle flags is their labels with bars between. -/
theorem text_eq (flags : BattleFlags) : flags.text = " | ".intercalate flags.labels := by
  rw [text, labels]
  split
  · simp
  · rfl

/-- Battle flags have no names exactly if none is set. -/
theorem names_eq_nil_iff : flags.names = [] ↔ flags.isEmpty = true := by
  rw [names, List.map_eq_nil_iff, toList_eq_nil_iff]

/-- There is always a label. -/
theorem labels_ne_nil (flags : BattleFlags) : flags.labels ≠ [] := by
  rw [labels]
  split
  · exact List.cons_ne_nil _ _
  · next h => exact mt names_eq_nil_iff.mp h

/-- A label is the name of a flag or that of the regular battle. -/
theorem eq_or_eq_name_of_mem_labels {label : String} (h : label ∈ flags.labels) :
    label = "Regular_battle" ∨ ∃ flag : BattleFlag, label = flag.name := by
  rw [labels] at h
  split at h
  · exact .inl (List.mem_singleton.mp h)
  · obtain ⟨flag, -, rfl⟩ := List.mem_map.mp h
    exact .inr ⟨flag, rfl⟩

/-- No label has a blank in it, so the bars between can be told. -/
theorem blank_not_mem_of_mem_labels {label : String} (h : label ∈ flags.labels) :
    ' ' ∉ label.toList := by
  rcases eq_or_eq_name_of_mem_labels h with rfl | ⟨flag, rfl⟩
  · decide
  · exact flag.blank_not_mem_name

/-- Battle flags are read back from their labels. -/
theorem labels_inj (h : flags.labels = flags'.labels) : flags = flags' := by
  -- the label of the empty set is no name, so no set of one flag has the same labels
  have hregular : ∀ flags : BattleFlags, flags.names ≠ ["Regular_battle"] := by
    intro flags hnames
    obtain ⟨flag, -, hname⟩ := List.mem_map.mp (hnames ▸ List.mem_singleton_self "Regular_battle")
    exact flag.name_ne_regular hname
  apply names_inj
  rw [labels, labels] at h
  split at h
  · next hempty =>
    split at h
    · next hempty' => rw [names_eq_nil_iff.mpr hempty, names_eq_nil_iff.mpr hempty']
    · exact absurd h.symm (hregular flags')
  · split at h
    · exact absurd h (hregular flags)
    · exact h

/-- A set of flags is read back from its text. -/
theorem text_inj (h : flags.text = flags'.text) : flags = flags' := by
  have hchars : (" | ".toList).intercalate (flags.labels.map String.toList) =
      (" | ".toList).intercalate (flags'.labels.map String.toList) := by
    rw [← String.toList_intercalate, ← text_eq, h, text_eq, String.toList_intercalate]
  have hblank : ∀ flags : BattleFlags, ∀ word ∈ flags.labels.map String.toList, ' ' ∉ word :=
    fun flags => List.forall_mem_map.mpr fun _ => blank_not_mem_of_mem_labels
  have hne : ∀ flags : BattleFlags, flags.labels.map String.toList ≠ [] :=
    fun flags => mt List.map_eq_nil_iff.mp flags.labels_ne_nil
  have hlabels := Text.intercalate_inj (hne flags) (hne flags') (hblank flags) (hblank flags') hchars
  exact labels_inj ((List.map_inj_right fun _ _ => String.toList_injective).mp hlabels)

/-- The text of battle flags needs no escape. -/
theorem plain_text (flags : BattleFlags) : Text.Plain flags.text := by
  rw [text_eq]
  refine Text.Plain.intercalate (by decide) fun label hlabel => ?_
  rcases eq_or_eq_name_of_mem_labels hlabel with rfl | ⟨flag, rfl⟩
  · decide
  · exact flag.plain_name

end BattleFlags

/-! ## Instructions -/

namespace Battle

variable {battle battle' : Battle}

/-- The text of a battle is its encounter and its flags between fixed words. -/
theorem toList_text (battle : Battle) : battle.text.toList =
    "BATTLE(encounter: ".toList ++ (Nat.toDigits 10 battle.encounter.toNat ++
      (", flags: ".toList ++ (battle.flags.text.toList ++ ")".toList))) := by
  unfold text
  simp only [Numeral.ofNat, String.toList_append, Nat.toList_repr, List.append_assoc]

/-- A battle is read back from its text. -/
theorem text_inj (h : battle.text = battle'.text) : battle = battle' := by
  have hcomma : ", flags: ".toList = ',' :: " flags: ".toList := by decide
  have hends : ∀ cs, Text.Ends Char.isDigit (", flags: ".toList ++ cs) := by
    intro cs
    rw [hcomma]
    exact .cons (by decide) _
  have hchars := congrArg String.toList h
  rw [toList_text, toList_text] at hchars
  obtain ⟨hencounter, hbehind⟩ :=
    Numeral.toDigits_append_inj (hends _) (hends _) (List.append_cancel_left hchars)
  have htext := List.append_cancel_right (List.append_cancel_left hbehind)
  obtain ⟨encounter, flags⟩ := battle
  cases UInt16.toNat_inj.mp hencounter
  cases BattleFlags.text_inj (String.toList_inj.mp htext)
  rfl

/-- The text of a battle needs no escape. -/
theorem plain_text (battle : Battle) : Text.Plain battle.text := by
  have hencounter := Numeral.plain_ofNat battle.encounter.toNat
  have hflags := battle.flags.plain_text
  have hopening : Text.Plain "BATTLE(encounter: " := by decide
  exact (((hopening.append hencounter).append (by decide)).append hflags).append (by decide)

end Battle

namespace Instruction

/-- An instruction is read back from its text. -/
theorem text_inj {i i' : Instruction} (h : i.text = i'.text) : i = i' := by
  have hnop : ∀ b : Battle, "NOP" ≠ b.text := by
    intro b hsame
    have hchars := congrArg String.toList hsame
    rw [b.toList_text] at hchars
    cases hchars
  cases i with
  | nop =>
    cases i' with
    | nop => rfl
    | battle b' => exact absurd h (hnop b')
  | battle b =>
    cases i' with
    | nop => exact absurd h.symm (hnop b)
    | battle b' => rw [Battle.text_inj h]

/-- The text of an instruction needs no escape. -/
theorem plain_text (i : Instruction) : Text.Plain i.text := by
  cases i with
  | nop => decide
  | battle b => exact b.plain_text

end Instruction

end EventScript
