import EventScript.CommandLine.Report
import EventScript.Proofs.Instruction.Readability

/-!
# Reading a disassembly back

A disassembly has a line for each instruction, in order, and at most one line more, on the
operands that nothing took. The lines are told apart by what stands behind the colour: digits in
those of instructions and a semicolon in the other. So nothing but the failures that were passed
over is lost in a disassembly.
-/

set_option autoImplicit false

namespace EventScript.CommandLine

open EventScript.Text (coloured unlines)

/-- Items that are told apart by what is printed for each are read back in front of other lines,
if none of these is printed for an item. -/
theorem mapIdx_append_inj {α β : Type} {f : Nat → α → β} {items items' : List α}
    {tail tail' : List β} (hf : ∀ index item item', f index item = f index item' → item = item')
    (htail : ∀ index item, f index item ∉ tail) (htail' : ∀ index item, f index item ∉ tail')
    (h : items.mapIdx f ++ tail = items'.mapIdx f ++ tail') : items = items' ∧ tail = tail' := by
  -- the positions of the rest begin at one, so `f` changes from step to step
  induction items generalizing items' f with
  | nil =>
    cases items' with
    | nil => exact ⟨rfl, h⟩
    | cons item' items' =>
      rw [List.mapIdx_cons, List.mapIdx_nil, List.nil_append] at h
      exact absurd (h ▸ List.mem_cons_self) (htail 0 item')
  | cons item items ih =>
    cases items' with
    | nil =>
      rw [List.mapIdx_cons, List.mapIdx_nil, List.nil_append] at h
      exact absurd (h ▸ List.mem_cons_self) (htail' 0 item)
    | cons item' items' =>
      rw [List.mapIdx_cons, List.mapIdx_cons, List.cons_append, List.cons_append,
        List.cons.injEq] at h
      obtain ⟨rfl, hrest⟩ := ih (fun index => hf (index + 1)) (fun index => htail (index + 1))
        (fun index => htail' (index + 1)) h.2
      exact ⟨by rw [hf 0 item item' h.1], hrest⟩

/-! ## Lines -/

variable {script script' : Script} {index : Nat} {i i' : Instruction}

/-- Grey text stands between the escape sequence of the colour and that of the default. -/
theorem toList_coloured (text : String) :
    (coloured .brightBlack text).toList =
      "\x1b[90m".toList ++ (text.toList ++ "\x1b[39m".toList) := by
  have hcode : Text.escapeSequence Text.Colour.brightBlack.code = "\x1b[90m" := by decide
  have hdefault : Text.escapeSequence Text.defaultColourCode = "\x1b[39m" := by decide
  rw [coloured, hcode, hdefault, String.toList_append, String.toList_append, List.append_assoc]

/-- Colour breaks no line. -/
theorem lineFeed_not_mem_coloured {text : String} (h : '\n' ∉ text.toList) :
    '\n' ∉ (coloured .brightBlack text).toList := by
  rw [toList_coloured, List.mem_append, List.mem_append]
  rintro (hmem | hmem | hmem)
  · exact absurd hmem (by decide)
  · exact h hmem
  · exact absurd hmem (by decide)

/-! ### Lines of instructions -/

/-- The line of an instruction is its position in grey, two blanks and its text. -/
theorem toList_disassembled (index : Nat) (i : Instruction) :
    (Report.disassembled index i).toList = "\x1b[90m".toList ++
      ((Numeral.zeroPadded 4 index).toList ++ ("\x1b[39m".toList ++
        ("  ".toList ++ i.text.toList))) := by
  unfold Report.disassembled
  simp only [String.toList_append, toList_coloured, List.append_assoc]

/-- At a position, an instruction is read back from its line. -/
theorem disassembled_inj (h : Report.disassembled index i = Report.disassembled index i') :
    i = i' :=
  Instruction.text_inj ((String.append_right_inj _).mp h)

/-- The line of an instruction is a single line. -/
theorem lineFeed_not_mem_disassembled (index : Nat) (i : Instruction) :
    '\n' ∉ (Report.disassembled index i).toList := by
  simp only [toList_disassembled, List.mem_append]
  rintro (hmem | hmem | hmem | hmem | hmem)
  · exact absurd hmem (by decide)
  · exact absurd (Numeral.isDigit_of_mem_zeroPadded hmem) (by decide)
  · exact absurd hmem (by decide)
  · exact absurd hmem (by decide)
  · exact i.plain_text.not_mem (by decide) hmem

/-! ### The line on operands -/

/-- What is said of operands that nothing took has their number in its middle. -/
theorem toList_leftoverText (count : Nat) : (Report.leftoverText count).toList =
    "; ".toList ++ (Nat.toDigits 10 count ++ " operand(s) left on the stack".toList) := by
  rw [Report.leftoverText, String.toList_append, String.toList_append, List.append_assoc,
    Numeral.ofNat, Nat.toList_repr]

/-- What is said of operands that nothing took is plain text. -/
theorem plain_leftoverText (count : Nat) : Text.Plain (Report.leftoverText count) := by
  have hopening : Text.Plain "; " := by decide
  exact (hopening.append (Numeral.plain_ofNat count)).append (by decide)

/-- The number of operands is read back from what is said of them. -/
theorem leftoverText_inj {count count' : Nat}
    (h : Report.leftoverText count = Report.leftoverText count') : count = count' := by
  have hchars := congrArg String.toList h
  rw [toList_leftoverText, toList_leftoverText] at hchars
  have hdigits := List.append_cancel_right (List.append_cancel_left hchars)
  exact Numeral.toDigits_injective hdigits

/-- The number of operands that nothing took is read back from the notice or its absence. -/
theorem leftoverNotice_inj (h : Report.leftoverNotice script = Report.leftoverNotice script') :
    script.leftover = script'.leftover := by
  rw [Report.leftoverNotice, Report.leftoverNotice] at h
  split at h
  · next hzero =>
    split at h
    · next hzero' => rw [hzero, hzero']
    · cases h
  · split at h
    · cases h
    · have hchars := congrArg String.toList (List.singleton_inj.mp h)
      rw [toList_coloured, toList_coloured] at hchars
      have htext := List.append_cancel_right (List.append_cancel_left hchars)
      exact leftoverText_inj (String.toList_inj.mp htext)

/-- The notice of operands is a single line if there is one. -/
theorem lineFeed_not_mem_leftoverNotice :
    ∀ line ∈ Report.leftoverNotice script, '\n' ∉ line.toList := by
  intro line hline
  rw [Report.leftoverNotice] at hline
  split at hline
  · cases hline
  · rw [List.mem_singleton.mp hline]
    exact lineFeed_not_mem_coloured ((plain_leftoverText _).not_mem (by decide))

/-- Behind the colour an instruction has a digit, where the line on operands has none. -/
theorem disassembled_not_mem_leftoverNotice (script : Script) (index : Nat) (i : Instruction) :
    Report.disassembled index i ∉ Report.leftoverNotice script := by
  intro hmem
  rw [Report.leftoverNotice] at hmem
  split at hmem
  · cases hmem
  · have hchars := congrArg String.toList (List.mem_singleton.mp hmem)
    obtain ⟨c, cs, hcs, hdigit⟩ := Numeral.exists_zeroPadded_eq_cons 4 index
    rw [toList_disassembled, toList_coloured, toList_leftoverText, hcs] at hchars
    have hbehind := List.append_cancel_left hchars
    have hsemicolon : "; ".toList = [';', ' '] := by decide
    rw [hsemicolon] at hbehind
    obtain ⟨rfl, -⟩ := List.cons.inj hbehind
    cases hdigit

/-! ## The disassembly -/

/-- A disassembly has the lines of the instructions and then the notice. -/
theorem disassembly_eq_append (script : Script) : Report.disassembly script =
    script.instructions.mapIdx Report.disassembled ++ Report.leftoverNotice script :=
  rfl

/-- No line of a disassembly is broken. -/
theorem lineFeed_not_mem_disassembly (script : Script) :
    ∀ line ∈ Report.disassembly script, '\n' ∉ line.toList := by
  intro line hline
  rw [disassembly_eq_append] at hline
  rcases List.mem_append.mp hline with hline | hline
  · obtain ⟨index, hindex, rfl⟩ := List.mem_mapIdx.mp hline
    exact lineFeed_not_mem_disassembled index _
  · exact lineFeed_not_mem_leftoverNotice line hline

/-- The disassembly loses nothing but the failures that were passed over: the texts of two
scripts are equal if and only if the scripts have the same instructions and as many operands
left. -/
theorem unlines_disassembly_eq_iff (script script' : Script) :
    unlines (Report.disassembly script) = unlines (Report.disassembly script') ↔
      script.instructions = script'.instructions ∧ script.leftover = script'.leftover := by
  constructor
  · intro htext
    have hlines := Text.unlines_inj (lineFeed_not_mem_disassembly script)
      (lineFeed_not_mem_disassembly script') htext
    rw [disassembly_eq_append, disassembly_eq_append] at hlines
    obtain ⟨hinstructions, hnotice⟩ := mapIdx_append_inj (f := Report.disassembled)
      (fun _ _ _ => disassembled_inj) (disassembled_not_mem_leftoverNotice script)
      (disassembled_not_mem_leftoverNotice script') hlines
    exact ⟨hinstructions, leftoverNotice_inj hnotice⟩
  · rintro ⟨hinstructions, hleftover⟩
    rw [disassembly_eq_append, disassembly_eq_append, Report.leftoverNotice,
      Report.leftoverNotice, hinstructions, hleftover]

end EventScript.CommandLine
