import EventScript.Text.Word

/-!
# What words are

The words of a text are described without a procedure that finds them: a word is a
nonempty run of characters that are not blank, with a blank or the end of the text
behind it, and blanks in front of a word do not count. Cutting at the blanks finds
exactly these.
-/

set_option autoImplicit false

namespace EventScript.Text

/-- `HasWords cs words`: the characters `cs` consist of `words` in order, of which any
two have a blank between them, and of blanks around these. -/
inductive HasWords : List Char → List (List Char) → Prop where
  | nil : HasWords [] []
  | blank {c : Char} {rest : List Char} {words : List (List Char)}
      (hc : isBlank c = true) (more : HasWords rest words) : HasWords (c :: rest) words
  | last {word : List Char} (hne : word ≠ []) (hword : ∀ c ∈ word, isBlank c = false) :
      HasWords word [word]
  | cons {word : List Char} {c : Char} {rest : List Char} {words : List (List Char)}
      (hne : word ≠ []) (hword : ∀ c ∈ word, isBlank c = false)
      (hc : isBlank c = true) (more : HasWords rest words) :
      HasWords (word ++ c :: rest) (word :: words)

/-- A blank in front adds no word. -/
theorem wordChars_blank_cons {c : Char} (hc : isBlank c = true) (rest : List Char) :
    wordChars (c :: rest) = wordChars rest := by
  simp [wordChars, pieces, hc]

/-- Characters that are not blank stay together. -/
theorem pieces_append {word : List Char} (hword : ∀ c ∈ word, isBlank c = false)
    (rest : List Char) :
    pieces (word ++ rest) = (pieces rest).modifyHead (word ++ ·) := by
  induction word with
  | nil =>
    cases h : pieces rest with
    | nil => exact absurd h (pieces_ne_nil rest)
    | cons first others => simp [h]
  | cons c word ih =>
    have hc : isBlank c = false := hword c List.mem_cons_self
    have htail : ∀ d ∈ word, isBlank d = false := fun d hd => hword d (List.mem_cons_of_mem c hd)
    rw [List.cons_append, pieces, hc, ih htail]
    cases pieces rest <;> simp

/-- Characters without a blank are one word. -/
theorem wordChars_eq_singleton {word : List Char} (hne : word ≠ [])
    (hword : ∀ c ∈ word, isBlank c = false) : wordChars word = [word] := by
  have h := pieces_append hword []
  rw [List.append_nil] at h
  simp [wordChars, h, pieces, hne]

/-- A word ends before a blank. -/
theorem wordChars_append_blank {word : List Char} (hne : word ≠ [])
    (hword : ∀ c ∈ word, isBlank c = false) {c : Char} (hc : isBlank c = true)
    (rest : List Char) : wordChars (word ++ c :: rest) = word :: wordChars rest := by
  simp [wordChars, pieces_append hword, pieces, hc, hne]

/-- A text has its words, also where its beginning `word` is still being read. -/
theorem hasWords_append_wordChars (cs : List Char) {word : List Char}
    (hword : ∀ c ∈ word, isBlank c = false) :
    HasWords (word ++ cs) (wordChars (word ++ cs)) := by
  induction cs generalizing word with
  | nil =>
    rw [List.append_nil]
    by_cases hne : word = []
    · subst hne
      exact .nil
    · rw [wordChars_eq_singleton hne hword]
      exact .last hne hword
  | cons c rest ih =>
    have hrest : HasWords rest (wordChars rest) := by
      have h := @ih [] (by simp)
      rwa [List.nil_append] at h
    cases hc : isBlank c with
    | true =>
      by_cases hne : word = []
      · subst hne
        rw [List.nil_append, wordChars_blank_cons hc]
        exact .blank hc hrest
      · rw [wordChars_append_blank hne hword hc]
        exact .cons hne hword hc hrest
    | false =>
      -- the character belongs to the word that is being read
      have hlonger : ∀ d ∈ word ++ [c], isBlank d = false := by
        intro d hd
        rcases List.mem_append.mp hd with hd | hd
        · exact hword d hd
        · rw [List.mem_singleton.mp hd]
          exact hc
      rw [List.append_cons]
      exact ih hlonger

/-- Cutting at the blanks finds the words of a text, and there is one way to have
words. -/
theorem wordChars_eq_iff (cs : List Char) (words : List (List Char)) :
    wordChars cs = words ↔ HasWords cs words := by
  constructor
  · rintro rfl
    have h := @hasWords_append_wordChars cs [] (by simp)
    rwa [List.nil_append] at h
  · intro h
    induction h with
    | nil => rfl
    | blank hc more ih => rw [wordChars_blank_cons hc, ih]
    | last hne hword => exact wordChars_eq_singleton hne hword
    | cons hne hword hc more ih => rw [wordChars_append_blank hne hword hc, ih]

/-! ## Words around blanks -/

/-- Cutting at the blanks is cutting a list at those of its members that are blank. -/
theorem pieces_eq_splitOnP (cs : List Char) : pieces cs = cs.splitOnP isBlank := by
  induction cs with
  | nil => rfl
  | cons c rest ih => rw [pieces, List.splitOnP_cons_eq_if_modifyHead, ih]

/-- The words on either side of a blank have nothing to do with each other. -/
theorem wordChars_append_cons {c : Char} (hc : isBlank c = true) (before after : List Char) :
    wordChars (before ++ c :: after) = wordChars before ++ wordChars after := by
  simp only [wordChars, pieces_eq_splitOnP]
  rw [List.splitOnP_append_cons _ _ hc, List.filter_append]

/-- Blanks in front add no word. -/
theorem wordChars_blanks_append {blanks : List Char} (hblanks : ∀ c ∈ blanks, isBlank c = true)
    (cs : List Char) : wordChars (blanks ++ cs) = wordChars cs := by
  induction blanks with
  | nil => rfl
  | cons c rest ih =>
    obtain ⟨hc, hrest⟩ := List.forall_mem_cons.mp hblanks
    rw [List.cons_append, wordChars_blank_cons hc, ih hrest]

/-- Blanks alone have no word. -/
theorem wordChars_eq_nil {blanks : List Char} (hblanks : ∀ c ∈ blanks, isBlank c = true) :
    wordChars blanks = [] := by
  have h := wordChars_blanks_append hblanks []
  rwa [List.append_nil] at h

/-- Blanks behind add no word. -/
theorem wordChars_append_blanks (cs : List Char) {blanks : List Char}
    (hblanks : ∀ c ∈ blanks, isBlank c = true) : wordChars (cs ++ blanks) = wordChars cs := by
  cases blanks with
  | nil => rw [List.append_nil]
  | cons c rest =>
    obtain ⟨hc, hrest⟩ := List.forall_mem_cons.mp hblanks
    rw [wordChars_append_cons hc, wordChars_eq_nil hrest, List.append_nil]

end EventScript.Text
