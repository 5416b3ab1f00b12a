import EventScript.Proofs.Listing.Grammar

/-!
# Where the tokens of a listing stand

The lines of the tokens of a listing are picked from the lines of its source in order,
one for each token. What is on such a line is a listing by itself, and its only token is
the one that came from there: a line of a source has no line end inside, so reading it
alone reads that line and nothing else.
-/

set_option autoImplicit false

namespace EventScript

/-! ## Lines by themselves -/

namespace Text

/-- No line has a line feed in it. -/
theorem HasLines.lineFeed_not_mem {cs : List Char} {lines : List (List Char)}
    (h : HasLines cs lines) : ∀ line ∈ lines, '\n' ∉ line := by
  induction h with
  | nil => simp
  | last hne hline => simpa using hline
  | lineFeed hline hend more ih => exact List.forall_mem_cons.mpr ⟨hline, ih⟩
  | carriageReturn hline more ih => exact List.forall_mem_cons.mpr ⟨hline, ih⟩

/-- A line of a text is the only line of itself, unless it is empty. -/
theorem lines_eq_singleton {text line : String} (hmem : line ∈ lines text) (hne : line ≠ "") :
    lines line = [line] := by
  obtain ⟨chars, hchars, rfl⟩ := List.mem_map.mp hmem
  have hlineFeed : '\n' ∉ chars :=
    ((lineChars_eq_iff _ _).mp rfl).lineFeed_not_mem chars hchars
  have hnil : chars ≠ [] := by
    rintro rfl
    exact hne rfl
  rw [lines, String.toList_ofList, lineChars_eq_singleton hnil hlineFeed]
  rfl

end Text

namespace Listing

/-! ## Numbers of lines -/

variable {number : Nat} {meanings : List (Option Token)}

/-- Entries take their numbers from those of all lines, in order. -/
theorem map_line_numbered_sublist (number : Nat) (meanings : List (Option Token)) :
    ((numbered number meanings).map (·.line)).Sublist (List.range' number meanings.length) := by
  induction meanings generalizing number with
  | nil => exact .slnil
  | cons meaning rest ih =>
    have hrest := ih (number + 1)
    rw [List.length_cons, List.range'_succ]
    cases meaning with
    | none =>
      rw [numbered_cons_none]
      exact hrest.cons number
    | some token =>
      rw [numbered_cons_some, List.map_cons]
      exact hrest.cons_cons number

/-- An entry is what the line with its number means. -/
theorem mem_numbered_iff (entry : ListingEntry) :
    entry ∈ numbered number meanings ↔
      number ≤ entry.line ∧ meanings[entry.line - number]? = some (some entry.token) := by
  obtain ⟨line, token⟩ := entry
  simp only [numbered, List.mem_filterMap, Prod.exists, Option.map_eq_some_iff,
    ListingEntry.mk.injEq]
  constructor
  · rintro ⟨_, _, hmem, _, rfl, rfl, rfl⟩
    exact List.mem_zipIdx_iff_le_and_getElem?_sub.mp hmem
  · intro h
    exact ⟨_, _, List.mem_zipIdx_iff_le_and_getElem?_sub.mpr h, token, rfl, rfl, rfl⟩

/-- The line of a source with this number is `raw`, and read by itself it is a listing
of this token alone. -/
structure HoldsToken (source : String) (number : Nat) (raw : String) (token : Token) : Prop where
  positive : 1 ≤ number
  line : (Text.lines source)[number - 1]? = some raw
  alone : parse raw = .ok ⟨[{ line := 1, token }]⟩

/-- A line that is read as a token is a listing of this token if it stands alone. -/
theorem parse_of_readLine {raw : String} {token : Token} (hlines : Text.lines raw = [raw])
    (hread : readLine raw = .ok (some token)) : parse raw = .ok ⟨[{ line := 1, token }]⟩ := by
  rw [parse, hlines]
  simp only [readFrom, hread]
  rfl

/-- The empty line has no token. -/
theorem readLine_empty : readLine "" = .ok none := by decide

variable {source : String} {listing : Listing}

/-- Every entry of a listing is the token of the line of the source with its number. -/
theorem holdsToken_of_mem_entries (hparse : parse source = .ok listing) {entry : ListingEntry}
    (hmem : entry ∈ listing.entries) :
    ∃ raw, HoldsToken source entry.line raw entry.token := by
  obtain ⟨meanings, hmeanings, hentries⟩ :=
    (readFrom_eq_ok_iff _ _ _).mp ((parse_eq_ok_iff source listing).mp hparse)
  rw [hentries, mem_numbered_iff] at hmem
  obtain ⟨hpositive, hmeaning⟩ := hmem
  obtain ⟨hlt, htoken⟩ := List.getElem?_eq_some_iff.mp hmeaning
  have hline : entry.line - 1 < (Text.lines source).length := by
    rw [hmeanings.length_eq]
    exact hlt
  have hread : readLine (Text.lines source)[entry.line - 1] = .ok (some entry.token) := by
    rw [← htoken]
    exact hmeanings.get hline hlt
  have hne : (Text.lines source)[entry.line - 1] ≠ "" := by
    intro hempty
    rw [hempty, readLine_empty] at hread
    cases hread
  refine ⟨_, hpositive, List.getElem?_eq_getElem hline, parse_of_readLine ?_ hread⟩
  exact Text.lines_eq_singleton (List.getElem_mem hline) hne

/-- The numbers of a listing are among those of the lines of its source, in order. -/
theorem lines_sublist (hparse : parse source = .ok listing) :
    listing.lines.Sublist (List.range' 1 (Text.lines source).length) := by
  obtain ⟨meanings, hmeanings, hentries⟩ :=
    (readFrom_eq_ok_iff _ _ _).mp ((parse_eq_ok_iff source listing).mp hparse)
  rw [Listing.lines, hentries, hmeanings.length_eq]
  exact map_line_numbered_sublist 1 meanings

/-- The numbers of a listing increase. -/
theorem pairwise_lines (hparse : parse source = .ok listing) :
    listing.lines.Pairwise (· < ·) :=
  List.Pairwise.sublist (lines_sublist hparse) List.pairwise_lt_range'

/-- For every token of a listing the number of a line is kept, and this line of the source is the
token. -/
theorem exists_lineOf?_eq {index : Nat} {token : Token} (hparse : parse source = .ok listing)
    (htoken : listing.tokens[index]? = some token) :
    ∃ number raw, listing.lineOf? index = some number ∧ HoldsToken source number raw token := by
  rw [Listing.tokens, List.getElem?_map, Option.map_eq_some_iff] at htoken
  obtain ⟨entry, hentry, rfl⟩ := htoken
  obtain ⟨raw, holds⟩ := holdsToken_of_mem_entries hparse (List.mem_of_getElem? hentry)
  refine ⟨entry.line, raw, ?_, holds⟩
  rw [lineOf?, Listing.lines, List.getElem?_map, hentry, Option.map_some]

end Listing

end EventScript
