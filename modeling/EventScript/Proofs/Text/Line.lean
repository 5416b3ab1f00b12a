import EventScript.Text.Line

/-!
# What lines are

A line goes as far as the line feed that ends it; a carriage return directly before
that line feed belongs to the end and not to the line. What follows the last line
feed is a line as well, unless it is empty. Lines that are all ended stay the same lines
in front of any text.
-/

set_option autoImplicit false

namespace EventScript.Text

/-- `HasLines cs lines`: the characters `cs` are `lines` in order, each with a line feed
behind it or a carriage return and a line feed, which only the last one may lack. -/
inductive HasLines : List Char → List (List Char) → Prop where
  | nil : HasLines [] []
  | last {line : List Char} (hne : line ≠ []) (hline : '\n' ∉ line) : HasLines line [line]
  | lineFeed {line rest : List Char} {lines : List (List Char)}
      (hline : '\n' ∉ line) (hend : line.getLast? ≠ some '\r') (more : HasLines rest lines) :
      HasLines (line ++ '\n' :: rest) (line :: lines)
  | carriageReturn {line rest : List Char} {lines : List (List Char)}
      (hline : '\n' ∉ line) (more : HasLines rest lines) :
      HasLines (line ++ '\r' :: '\n' :: rest) (line :: lines)

/-- A character that begins no line end begins the first line. -/
theorem lineChars_cons {c : Char} {rest : List Char} (hc : c ≠ '\n')
    (hend : c = '\r' → rest.head? ≠ some '\n') :
    lineChars (c :: rest) =
      match lineChars rest with
      | [] => [[c]]
      | line :: lines => (c :: line) :: lines := by
  have hreturn : ∀ tail, c = '\r' → rest = '\n' :: tail → False := by
    rintro tail rfl rfl
    exact hend rfl rfl
  exact lineChars.eq_4 c rest hc hreturn

/-- Characters without a line feed are one line. -/
theorem lineChars_eq_singleton {line : List Char} (hne : line ≠ []) (hline : '\n' ∉ line) :
    lineChars line = [line] := by
  induction line with
  | nil => exact absurd rfl hne
  | cons c rest ih =>
    have hc : c ≠ '\n' := (List.ne_of_not_mem_cons hline).symm
    have hrest : '\n' ∉ rest := List.not_mem_of_not_mem_cons hline
    rw [lineChars_cons hc fun _ h => hrest (List.mem_of_mem_head? h)]
    by_cases hnil : rest = []
    · rw [hnil, lineChars_nil]
    · rw [ih hnil hrest]

/-- A line ends before its line feed. -/
theorem lineChars_append_lineFeed {line : List Char} (hline : '\n' ∉ line)
    (hend : line.getLast? ≠ some '\r') (rest : List Char) :
    lineChars (line ++ '\n' :: rest) = line :: lineChars rest := by
  induction line with
  | nil => exact lineChars_lineFeed rest
  | cons c line ih =>
    have hc : c ≠ '\n' := (List.ne_of_not_mem_cons hline).symm
    have htail : '\n' ∉ line := List.not_mem_of_not_mem_cons hline
    cases line with
    | nil =>
      have hreturn : c ≠ '\r' := by
        rintro rfl
        exact hend rfl
      rw [List.cons_append, lineChars_cons hc fun h => absurd h hreturn, List.nil_append,
        lineChars_lineFeed]
    | cons d line =>
      have hd : d ≠ '\n' := (List.ne_of_not_mem_cons htail).symm
      rw [List.getLast?_cons_cons] at hend
      have hhead : ((d :: line) ++ '\n' :: rest).head? ≠ some '\n' := by
        intro h
        exact hd (Option.some.inj h)
      rw [List.cons_append, lineChars_cons hc fun _ => hhead, ih htail hend]

/-- A line ends before its carriage return and line feed. -/
theorem lineChars_append_carriageReturn {line : List Char} (hline : '\n' ∉ line)
    (rest : List Char) :
    lineChars (line ++ '\r' :: '\n' :: rest) = line :: lineChars rest := by
  induction line with
  | nil => exact lineChars_carriageReturn_lineFeed rest
  | cons c line ih =>
    have hc : c ≠ '\n' := (List.ne_of_not_mem_cons hline).symm
    have htail : '\n' ∉ line := List.not_mem_of_not_mem_cons hline
    have hhead : (line ++ '\r' :: '\n' :: rest).head? ≠ some '\n' := by
      cases line with
      | nil => simp
      | cons d line =>
        intro h
        exact List.ne_of_not_mem_cons htail (Option.some.inj h).symm
    rw [List.cons_append, lineChars_cons hc fun _ => hhead, ih htail]

/-- A text has its lines, also where its beginning `line` is still being read. -/
theorem hasLines_append_lineChars (cs : List Char) {line : List Char} (hline : '\n' ∉ line) :
    HasLines (line ++ cs) (lineChars (line ++ cs)) := by
  induction cs generalizing line with
  | nil =>
    rw [List.append_nil]
    by_cases hne : line = []
    · subst hne
      exact .nil
    · rw [lineChars_eq_singleton hne hline]
      exact .last hne hline
  | cons c rest ih =>
    have hrest : HasLines rest (lineChars rest) := by
      have h := @ih [] (by simp)
      rwa [List.nil_append] at h
    by_cases hc : c = '\n'
    · subst hc
      by_cases hend : line.getLast? = some '\r'
      · -- the line that is being read ends before the carriage return
        obtain ⟨front, rfl⟩ := List.getLast?_eq_some_iff.mp hend
        have hfront : '\n' ∉ front := fun h => hline (List.mem_append_left _ h)
        rw [List.append_assoc, List.singleton_append, lineChars_append_carriageReturn hfront]
        exact .carriageReturn hfront hrest
      · rw [lineChars_append_lineFeed hline hend]
        exact .lineFeed hline hend hrest
    · have hlonger : '\n' ∉ line ++ [c] := by
        intro h
        rcases List.mem_append.mp h with h | h
        · exact hline h
        · exact hc (List.mem_singleton.mp h).symm
      rw [List.append_cons]
      exact ih hlonger

/-- Reading as far as each line end finds the lines of a text, and there is one way to
have lines. -/
theorem lineChars_eq_iff (cs : List Char) (lines : List (List Char)) :
    lineChars cs = lines ↔ HasLines cs lines := by
  constructor
  · rintro rfl
    have h := @hasLines_append_lineChars cs [] (by simp)
    rwa [List.nil_append] at h
  · intro h
    induction h with
    | nil => rfl
    | last hne hline => exact lineChars_eq_singleton hne hline
    | lineFeed hline hend more ih => rw [lineChars_append_lineFeed hline hend, ih]
    | carriageReturn hline more ih => rw [lineChars_append_carriageReturn hline, ih]

/-- Lines that are joined by line feeds are found again, provided that none is empty. -/
theorem lineChars_intercalate {lines : List (List Char)}
    (hlines : ∀ line ∈ lines, line ≠ [] ∧ '\n' ∉ line ∧ '\r' ∉ line) :
    lineChars (['\n'].intercalate lines) = lines := by
  induction lines with
  | nil => rfl
  | cons line rest ih =>
    obtain ⟨hne, hlineFeed, hreturn⟩ := hlines line List.mem_cons_self
    cases rest with
    | nil =>
      rw [List.intercalate_singleton]
      exact lineChars_eq_singleton hne hlineFeed
    | cons second others =>
      rw [List.intercalate_cons_cons, List.append_assoc, List.singleton_append,
        lineChars_append_lineFeed hlineFeed (fun h => hreturn (List.mem_of_getLast? h))]
      rw [ih (fun other hother => hlines other (List.mem_cons_of_mem _ hother))]

/-! ## Whole lines -/

/-- Whole lines: the characters are none at all, or the last one is a line feed. -/
def WholeLines (cs : List Char) : Prop := cs = [] ∨ cs.getLast? = some '\n'

instance (cs : List Char) : Decidable (WholeLines cs) := instDecidableOr

variable {first second line rest : List Char} {found others : List (List Char)}

/-- What stands behind the first of whole lines is whole lines. -/
theorem WholeLines.of_append (whole : WholeLines (line ++ '\n' :: rest)) : WholeLines rest := by
  cases rest with
  | nil => exact .inl rfl
  | cons c rest =>
    have hend := whole.resolve_left (by simp)
    rw [List.getLast?_append, List.getLast?_cons_cons, List.getLast?_cons, Option.some_or] at hend
    rw [WholeLines, List.getLast?_cons]
    exact .inr hend

/-- Behind a line of whole lines there are whole lines, also if it ends in a carriage return and a
line feed. -/
theorem WholeLines.of_append_carriageReturn
    (whole : WholeLines (line ++ '\r' :: '\n' :: rest)) : WholeLines rest := by
  rw [← List.singleton_append, ← List.append_assoc] at whole
  exact whole.of_append

/-- An open last line is no whole line. -/
theorem WholeLines.false_of_not_mem (whole : WholeLines line) (hne : line ≠ [])
    (hline : '\n' ∉ line) : False :=
  hline (List.mem_of_getLast? (whole.resolve_left hne))

/-- The lines of a text behind whole lines follow those before. -/
theorem HasLines.append (h : HasLines first found) (whole : WholeLines first)
    (more : HasLines second others) : HasLines (first ++ second) (found ++ others) := by
  induction h with
  | nil => exact more
  | last hne hline => exact (whole.false_of_not_mem hne hline).elim
  | lineFeed hline hend behind ih =>
    rw [List.append_assoc, List.cons_append]
    exact .lineFeed hline hend (ih whole.of_append)
  | carriageReturn hline behind ih =>
    rw [List.append_assoc, List.cons_append, List.cons_append]
    exact .carriageReturn hline (ih whole.of_append_carriageReturn)

/-- There are as many whole lines as line feeds. -/
theorem HasLines.length_eq (h : HasLines first found) (whole : WholeLines first) :
    found.length = first.count '\n' := by
  induction h with
  | nil => rfl
  | last hne hline => exact (whole.false_of_not_mem hne hline).elim
  | lineFeed hline hend behind ih =>
    rw [List.length_cons, ih whole.of_append, List.count_append, List.count_cons_self,
      List.count_eq_zero_of_not_mem hline, Nat.zero_add]
  | carriageReturn hline behind ih =>
    rw [List.length_cons, ih whole.of_append_carriageReturn, List.count_append,
      List.count_cons_of_ne (by decide), List.count_cons_self,
      List.count_eq_zero_of_not_mem hline, Nat.zero_add]

variable {text : String}

/-- Whole lines are the same lines in front of any text. -/
theorem lines_append (whole : WholeLines text.toList) (rest : String) :
    lines (text ++ rest) = lines text ++ lines rest := by
  have h := ((lineChars_eq_iff _ _).mp rfl : HasLines text.toList _).append whole
    ((lineChars_eq_iff rest.toList _).mp rfl)
  rw [lines, String.toList_append, (lineChars_eq_iff _ _).mpr h, List.map_append,
    lines, lines]

/-- A text of whole lines has as many lines as line feeds. -/
theorem length_lines (whole : WholeLines text.toList) :
    (lines text).length = text.toList.count '\n' := by
  rw [lines, List.length_map]
  exact ((lineChars_eq_iff _ _).mp rfl : HasLines text.toList _).length_eq whole

end EventScript.Text
