import EventScript.Proofs.Listing.Location
import Mathlib.Order.Bounds.Defs

/-!
# Listings line by line

Nothing of a line is known to the lines behind it, apart from how many there were. A
listing can therefore be read in parts that end with a line: each part gives what it gives
alone, with its numbers moved by the lines in front, and a fault hides what follows it. The
fault of a source is the one that its first faulty line has alone.
-/

set_option autoImplicit false

namespace EventScript

/-! ## Reading in parts -/

/-- The same token, `count` lines further on. -/
def ListingEntry.shift (count : Nat) (entry : ListingEntry) : ListingEntry :=
  { entry with line := entry.line + count }

/-- The same fault, `count` lines further on. -/
def ListingError.shift (count : Nat) (error : ListingError) : ListingError :=
  { error with line := error.line + count }

namespace Listing

variable {number : Nat} {line : String} {rest : List String}

/-- A line with a fault ends the reading there. -/
theorem readFrom_cons_of_error {fault : Fault} (h : readLine line = .error fault) :
    readFrom number (line :: rest) = .error { line := number, fault } := by
  rw [readFrom, h]

/-- A line without a token counts and adds nothing. -/
theorem readFrom_cons_of_none (h : readLine line = .ok none) :
    readFrom number (line :: rest) = readFrom (number + 1) rest := by
  rw [readFrom, h]

/-- A line with a token adds it under its number. -/
theorem readFrom_cons_of_some {token : Token} (h : readLine line = .ok (some token)) :
    readFrom number (line :: rest) =
      (readFrom (number + 1) rest).map ({ line := number, token } :: ·) := by
  rw [readFrom, h]

/-- Lines are read as their first part and, if that has no fault, as the rest with the
numbers that follow. -/
theorem readFrom_append (number : Nat) (first second : List String) :
    readFrom number (first ++ second) =
      match readFrom number first with
      | .error error => .error error
      | .ok entries => (readFrom (number + first.length) second).map (entries ++ ·) := by
  induction first generalizing number with
  | nil =>
    simp only [List.nil_append, readFrom, List.length_nil, Nat.add_zero]
    cases readFrom number second <;> rfl
  | cons line first ih =>
    have hnumber : number + (line :: first).length = number + 1 + first.length := by
      rw [List.length_cons]
      omega
    rw [List.cons_append, hnumber]
    rcases hline : readLine line with fault | _ | token
    · rw [readFrom_cons_of_error hline, readFrom_cons_of_error hline]
    · rw [readFrom_cons_of_none hline, readFrom_cons_of_none hline, ih]
    · rw [readFrom_cons_of_some hline, readFrom_cons_of_some hline, ih]
      rcases readFrom (number + 1) first with error | entries
      · rfl
      · dsimp only [Except.map]
        cases readFrom (number + 1 + first.length) second <;> rfl

/-- Lines with later numbers give the same, as much later. -/
theorem readFrom_add (number count : Nat) (lines : List String) :
    readFrom (number + count) lines =
      match readFrom number lines with
      | .error error => .error (error.shift count)
      | .ok entries => .ok (entries.map (ListingEntry.shift count)) := by
  induction lines generalizing number with
  | nil => rfl
  | cons line rest ih =>
    have hnumber : number + count + 1 = number + 1 + count := by omega
    rcases hline : readLine line with fault | _ | token
    · rw [readFrom_cons_of_error hline, readFrom_cons_of_error hline]
      rfl
    · rw [readFrom_cons_of_none hline, readFrom_cons_of_none hline, hnumber, ih]
    · rw [readFrom_cons_of_some hline, readFrom_cons_of_some hline, hnumber, ih]
      cases readFrom (number + 1) rest <;> rfl

variable {first : String} {listing tail : Listing} {error : ListingError}

/-- A fault in whole lines is the fault of every text that begins with them. -/
theorem parse_append_of_error (whole : Text.WholeLines first.toList)
    (h : parse first = .error error) (rest : String) : parse (first ++ rest) = .error error := by
  rw [parse_eq_error_iff] at h ⊢
  rw [Text.lines_append whole, readFrom_append, h]

/-- Behind whole lines that are read, a text is read with later numbers. -/
theorem parse_append_of_ok (whole : Text.WholeLines first.toList)
    (h : parse first = .ok listing) (rest : String) :
    parse (first ++ rest) =
      match parse rest with
      | .error error => .error (error.shift (first.toList.count '\n'))
      | .ok tail => .ok
          ⟨listing.entries ++ tail.entries.map (ListingEntry.shift (first.toList.count '\n'))⟩ := by
  rw [parse_eq_ok_iff] at h
  rw [parse, Text.lines_append whole, readFrom_append, h, Text.length_lines whole, parse]
  dsimp only
  rw [readFrom_add]
  cases readFrom 1 (Text.lines rest) <;> rfl

/-- Entries that are moved down are on the lines so much further down. -/
theorem map_line_shift (count : Nat) (entries : List ListingEntry) :
    (entries.map (ListingEntry.shift count)).map (·.line) =
      (entries.map (·.line)).map (count + ·) := by
  simp [ListingEntry.shift, Nat.add_comm]

/-! ## The first fault -/

/-- The line of a source with this number is no listing when it is read alone. -/
def RejectsLine (source : String) (number : Nat) : Prop :=
  1 ≤ number ∧ ∃ raw error, (Text.lines source)[number - 1]? = some raw ∧ parse raw = .error error

variable {source raw : String}

/-- A line of a source read alone has the fault that it has as a line. -/
theorem parse_line_eq_error_iff (hmem : raw ∈ Text.lines source) (error : ListingError) :
    parse raw = .error error ↔ error.line = 1 ∧ readLine raw = .error error.fault := by
  by_cases hempty : raw = ""
  · have hread : parse "" = .ok ⟨[]⟩ := rfl
    rw [hempty, hread, readLine_empty]
    simp
  · rw [parse_eq_error_iff, Text.lines_eq_singleton hmem hempty]
    obtain ⟨line, fault⟩ := error
    rcases hline : readLine raw with cause | _ | token
    · rw [readFrom_cons_of_error hline]
      simp [eq_comm]
    · rw [readFrom_cons_of_none hline]
      simp [readFrom]
    · rw [readFrom_cons_of_some hline]
      simp [readFrom, Except.map]

/-- The fault of a source is that of the first line that is rejected alone. -/
theorem isLeast_line_of_parse_eq_error (h : parse source = .error error) :
    IsLeast {number | RejectsLine source number} error.line ∧
      ∃ raw, (Text.lines source)[error.line - 1]? = some raw ∧
        parse raw = .error { error with line := 1 } := by
  obtain ⟨before, raw, after, hlines, hnumber, hraw, hbefore⟩ :=
    (readFrom_eq_error_iff _ _ _).mp ((parse_eq_error_iff source error).mp h)
  have hget : (Text.lines source)[error.line - 1]? = some raw := by
    rw [hlines, hnumber, Nat.add_sub_cancel_left, List.getElem?_append_right (Nat.le_refl _),
      Nat.sub_self, List.getElem?_cons_zero]
  have halone : parse raw = .error { error with line := 1 } :=
    (parse_line_eq_error_iff (List.mem_of_getElem? hget) _).mpr ⟨rfl, hraw⟩
  refine ⟨⟨⟨by omega, raw, _, hget, halone⟩, ?_⟩, raw, hget, halone⟩
  rintro number ⟨hpositive, other, fault, hother, hrejected⟩
  -- an earlier line would be one of those that are read
  by_contra hlt
  have hearlier : number - 1 < before.length := by omega
  have hmem : other ∈ before := by
    rw [hlines, List.getElem?_append_left hearlier] at hother
    exact List.mem_of_getElem? hother
  obtain ⟨meaning, hmeaning⟩ := hbefore other hmem
  have hfault := (parse_line_eq_error_iff (List.mem_of_getElem? hother) _).mp hrejected
  rw [hmeaning] at hfault
  cases hfault.2

/-- Whole lines in front of a text hide it if they have a fault, and otherwise the text gives
what it gives alone, its numbers moved by these lines, behind the tokens of these lines. The
fault of any source is on the first line that is rejected alone, and is the fault which that
line has alone. -/
theorem parse_line_by_line :
    (∀ first rest : String, Text.WholeLines first.toList →
      (∀ error, parse first = .error error → parse (first ++ rest) = .error error) ∧
      ∀ listing, parse first = .ok listing →
        (∀ error, parse rest = .error error →
          parse (first ++ rest) = .error (error.shift (first.toList.count '\n'))) ∧
        ∀ tail, parse rest = .ok tail →
          ∃ whole, parse (first ++ rest) = .ok whole ∧
            whole.tokens = listing.tokens ++ tail.tokens ∧
            whole.lines = listing.lines ++ tail.lines.map (first.toList.count '\n' + ·)) ∧
    ∀ source error, parse source = .error error →
      IsLeast {number | RejectsLine source number} error.line ∧
        ∃ raw, (Text.lines source)[error.line - 1]? = some raw ∧
          parse raw = .error { error with line := 1 } := by
  refine ⟨?_, fun source error h => isLeast_line_of_parse_eq_error h⟩
  intro first rest whole
  refine ⟨fun error h => parse_append_of_error whole h rest, fun listing h => ⟨?_, ?_⟩⟩
  · intro error herror
    rw [parse_append_of_ok whole h, herror]
  · intro tail htail
    rw [parse_append_of_ok whole h, htail]
    refine ⟨_, rfl, ?_, ?_⟩
    · rw [tokens, List.map_append, List.map_map]
      rfl
    · rw [lines, List.map_append, map_line_shift]
      rfl

/-- Whole lines with a comment, a token and a blank line. -/
def openingLines : String := "# boss\r\nPSHN_L 1\n\n"

/-- Lines that have a fault of their own in front of another one. -/
def faultyLines : String := "NOP\ncal 16\nBATTLE 1 2"

/-- A fault behind whole lines is found that many lines further down, a fault in them hides it, and
lines without one are read as one listing. -/
theorem parse_line_by_line_openingLines :
    Text.WholeLines openingLines.toList ∧
      parse ("cal\n" ++ faultyLines) = .error ⟨1, .argumentCount "CAL" 0⟩ ∧
      parse (openingLines ++ faultyLines) = .error ⟨5, .unknownCalculation "16"⟩ ∧
      (∃ whole, parse (openingLines ++ "battle") = .ok whole ∧
        whole.tokens = [.constant 1, .operation .battle 0] ∧ whole.lines = [2, 4]) ∧
      IsLeast {number | RejectsLine (openingLines ++ faultyLines) number} 5 ∧
      ∃ raw, (Text.lines (openingLines ++ faultyLines))[4]? = some raw ∧
        parse raw = .error ⟨1, .unknownCalculation "16"⟩ := by
  obtain ⟨parts, faults⟩ := parse_line_by_line
  have whole : Text.WholeLines openingLines.toList := by decide
  have hcal : parse "cal\n" = .error ⟨1, .argumentCount "CAL" 0⟩ := by decide +kernel
  have hhidden := (parts "cal\n" faultyLines (by decide)).1 _ hcal
  have hopening : parse openingLines = .ok ⟨[⟨2, .constant 1⟩]⟩ := by decide +kernel
  have hfaulty : parse faultyLines = .error ⟨2, .unknownCalculation "16"⟩ := by decide +kernel
  have hbattle : parse "battle" = .ok ⟨[⟨1, .operation .battle 0⟩]⟩ := by decide +kernel
  have hrejected := ((parts openingLines faultyLines whole).2 _ hopening).1 _ hfaulty
  obtain ⟨least, alone⟩ := faults _ _ hrejected
  exact ⟨whole, hhidden, hrejected, ((parts openingLines "battle" whole).2 _ hopening).2 _ hbattle,
    least, alone⟩

end Listing

end EventScript
