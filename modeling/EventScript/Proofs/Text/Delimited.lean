import EventScript.Proofs.Text.Numeral
import EventScript.Text.Line

/-!
# Texts that end where another one begins

Two texts in a row can be told apart if the second begins with a character that the first
cannot go on with. If the same characters are cut in this way twice, they are cut at the
same place. So are any number of texts in a row, be it that each is ended by the same
character or that the same separator stands between them.
-/

set_option autoImplicit false

namespace EventScript.Text

variable {p : Char → Bool} {first second rest rest' : List Char}

/-- `Ends p rest`: what is left begins with no character of the sort, so a run of such
characters in front of it is over. -/
def Ends (p : Char → Bool) (rest : List Char) : Prop := ∀ c ∈ rest.head?, p c = false

/-- Behind the last character every run is over. -/
theorem Ends.nil (p : Char → Bool) : Ends p [] := nofun

/-- A character of another sort ends a run. -/
theorem Ends.cons {c : Char} (h : p c = false) (rest : List Char) : Ends p (c :: rest) := by
  rintro _ ⟨⟩
  exact h

/-- A run is found again in front of what ends it. -/
theorem takeWhile_append_of_ends (hall : ∀ c ∈ first, p c = true) (hends : Ends p rest) :
    (first ++ rest).takeWhile p = first := by
  rw [List.takeWhile_append_of_pos hall]
  cases rest with
  | nil => exact List.append_nil first
  | cons c rest => rw [List.takeWhile_cons_of_neg (by simp [hends c rfl]), List.append_nil]

/-- A run of characters of one sort is cut at its end. -/
theorem append_inj_of_ends (hfirst : ∀ c ∈ first, p c = true) (hsecond : ∀ c ∈ second, p c = true)
    (hrest : Ends p rest) (hrest' : Ends p rest') (h : first ++ rest = second ++ rest') :
    first = second ∧ rest = rest' := by
  have hsame : first = second := by
    rw [← takeWhile_append_of_ends hfirst hrest, h, takeWhile_append_of_ends hsecond hrest']
  subst hsame
  exact ⟨rfl, List.append_cancel_left h⟩

/-- A text without the delimiter is one run of other characters. -/
theorem forall_bne_of_not_mem {delimiter : Char} (h : delimiter ∉ first) :
    ∀ c ∈ first, (c != delimiter) = true := by
  intro c hc
  rw [bne_iff_ne]
  rintro rfl
  exact h hc

/-- A text is cut at the first delimiter behind it. -/
theorem append_cons_inj {delimiter : Char} (hfirst : delimiter ∉ first)
    (hsecond : delimiter ∉ second) (h : first ++ delimiter :: rest = second ++ delimiter :: rest') :
    first = second ∧ rest = rest' := by
  have hends : ∀ cs, Ends (· != delimiter) (delimiter :: cs) := fun cs => .cons (by simp) cs
  obtain ⟨hsame, hrests⟩ := append_inj_of_ends (forall_bne_of_not_mem hfirst)
    (forall_bne_of_not_mem hsecond) (hends rest) (hends rest') h
  exact ⟨hsame, (List.cons_inj_right delimiter).mp hrests⟩

/-! ## Any number of texts in a row -/

variable {mark : Char} {separator : List Char} {words words' : List (List Char)}

/-- Words that are ended by a character that none of them has are found again. -/
theorem flatMap_ended_inj (h : ∀ word ∈ words, mark ∉ word) (h' : ∀ word ∈ words', mark ∉ word)
    (hsame : words.flatMap (· ++ [mark]) = words'.flatMap (· ++ [mark])) : words = words' := by
  induction words generalizing words' with
  | nil =>
    cases words' with
    | nil => rfl
    | cons word' others' => simp at hsame
  | cons word others ih =>
    cases words' with
    | nil => simp at hsame
    | cons word' others' =>
      obtain ⟨hword, hothers⟩ := List.forall_mem_cons.mp h
      obtain ⟨hword', hothers'⟩ := List.forall_mem_cons.mp h'
      simp only [List.flatMap_cons, List.append_assoc, List.singleton_append] at hsame
      obtain ⟨rfl, hrest⟩ := append_cons_inj hword hword' hsame
      rw [ih hothers hothers' hrest]

/-- Words behind a separator each are found again if it begins with a character that none of
them has. -/
theorem flatMap_separated_inj (h : ∀ word ∈ words, mark ∉ word) (h' : ∀ word ∈ words', mark ∉ word)
    (hsame : words.flatMap ((mark :: separator) ++ ·) =
      words'.flatMap ((mark :: separator) ++ ·)) : words = words' := by
  have hends : ∀ words : List (List Char),
      Ends (· != mark) (words.flatMap ((mark :: separator) ++ ·)) := by
    intro words
    cases words with
    | nil => exact .nil _
    | cons word others => exact .cons (by simp) _
  induction words generalizing words' with
  | nil =>
    cases words' with
    | nil => rfl
    | cons word' others' => cases hsame
  | cons word others ih =>
    cases words' with
    | nil => cases hsame
    | cons word' others' =>
      obtain ⟨hword, hothers⟩ := List.forall_mem_cons.mp h
      obtain ⟨hword', hothers'⟩ := List.forall_mem_cons.mp h'
      rw [List.flatMap_cons, List.flatMap_cons, List.append_assoc, List.append_assoc] at hsame
      -- the last word has no mark behind it, but it ends with the text
      obtain ⟨rfl, hrest⟩ := append_inj_of_ends (forall_bne_of_not_mem hword)
        (forall_bne_of_not_mem hword') (hends others) (hends others')
        (List.append_cancel_left hsame)
      rw [ih hothers hothers' hrest]

/-- With a separator in front as well, each word has one before it. -/
theorem append_intercalate (hne : words ≠ []) :
    separator ++ separator.intercalate words = words.flatMap (separator ++ ·) := by
  induction words with
  | nil => exact absurd rfl hne
  | cons word others ih =>
    cases others with
    | nil => simp
    | cons next others =>
      rw [List.intercalate_cons_cons, List.append_assoc, List.flatMap_cons, ih (by simp),
        List.append_assoc]

/-- Words with a separator between them are found again if there is any word at all. -/
theorem intercalate_inj (hne : words ≠ []) (hne' : words' ≠ [])
    (h : ∀ word ∈ words, mark ∉ word) (h' : ∀ word ∈ words', mark ∉ word)
    (hsame : (mark :: separator).intercalate words = (mark :: separator).intercalate words') :
    words = words' := by
  apply @flatMap_separated_inj mark separator words words' h h'
  rw [← append_intercalate hne, hsame, append_intercalate hne']

/-- Lines are found again in the text of them. -/
theorem unlines_inj {lines lines' : List String} (h : ∀ line ∈ lines, '\n' ∉ line.toList)
    (h' : ∀ line ∈ lines', '\n' ∉ line.toList) (hsame : unlines lines = unlines lines') :
    lines = lines' := by
  have htext : ∀ lines : List String,
      (unlines lines).toList = (lines.map String.toList).flatMap (· ++ ['\n']) := by
    intro lines
    simp [unlines, List.flatMap_map]
  have hchars := congrArg String.toList hsame
  rw [htext, htext] at hchars
  have hlines : lines.map String.toList = lines'.map String.toList :=
    flatMap_ended_inj (List.forall_mem_map.mpr h) (List.forall_mem_map.mpr h') hchars
  exact (List.map_inj_right fun _ _ => String.toList_injective).mp hlines

end EventScript.Text

namespace EventScript.Numeral

/-- A number is read back from its decimal digits. -/
theorem toDigits_injective : Function.Injective (Nat.toDigits 10) := by
  intro m n h
  have hm := (magnitude?_eq_some_iff _ _).mpr (denotesMagnitude_toDigits m)
  rw [h, (magnitude?_eq_some_iff _ _).mpr (denotesMagnitude_toDigits n)] at hm
  exact (Option.some.inj hm).symm

/-- A number in decimal is cut behind its last digit. -/
theorem toDigits_append_inj {m n : Nat} {rest rest' : List Char}
    (hrest : Text.Ends Char.isDigit rest) (hrest' : Text.Ends Char.isDigit rest')
    (h : Nat.toDigits 10 m ++ rest = Nat.toDigits 10 n ++ rest') : m = n ∧ rest = rest' := by
  have hdigits : ∀ k, ∀ c ∈ Nat.toDigits 10 k, c.isDigit = true := fun k c hc =>
    Nat.isDigit_of_mem_toDigits (by decide) (by decide) hc
  obtain ⟨hsame, hrests⟩ := Text.append_inj_of_ends (hdigits m) (hdigits n) hrest hrest' h
  exact ⟨toDigits_injective hsame, hrests⟩

/-- There is at least one decimal digit. -/
theorem exists_toDigits_eq_cons (n : Nat) :
    ∃ c cs, Nat.toDigits 10 n = c :: cs ∧ c.isDigit = true := by
  obtain ⟨c, cs, hcs⟩ := List.exists_cons_of_ne_nil (@Nat.toDigits_ne_nil n 10)
  refine ⟨c, cs, hcs, @Nat.isDigit_of_mem_toDigits 10 n c (by decide) (by decide) ?_⟩
  rw [hcs]
  exact List.mem_cons_self

/-- A number with zeros in front has only digits. -/
theorem isDigit_of_mem_zeroPadded {width n : Nat} {c : Char}
    (h : c ∈ (zeroPadded width n).toList) : c.isDigit = true := by
  rw [zeroPadded, String.toList_ofList, padLeft] at h
  rcases List.mem_append.mp h with h | h
  · rw [List.eq_of_mem_replicate h]
    rfl
  · exact Nat.isDigit_of_mem_toDigits (by decide) (by decide) h

/-- A number with zeros in front begins with a digit. -/
theorem exists_zeroPadded_eq_cons (width n : Nat) :
    ∃ c cs, (zeroPadded width n).toList = c :: cs ∧ c.isDigit = true := by
  have hne : (zeroPadded width n).toList ≠ [] := by
    simp [zeroPadded, padLeft]
  obtain ⟨c, cs, hcs⟩ := List.exists_cons_of_ne_nil hne
  exact ⟨c, cs, hcs, isDigit_of_mem_zeroPadded (hcs ▸ List.mem_cons_self)⟩

/-- A minus sign is not the beginning of a number without a sign. -/
theorem minus_cons_ne_toDigits_append (n : Nat) (rest rest' : List Char) :
    '-' :: rest ≠ Nat.toDigits 10 n ++ rest' := by
  obtain ⟨c, cs, hcs, hdigit⟩ := exists_toDigits_eq_cons n
  rw [hcs]
  intro h
  obtain ⟨rfl, -⟩ := List.cons.inj h
  cases hdigit

/-- An integer in decimal is cut behind its last digit. -/
theorem ofInt_append_inj {m n : Int} {rest rest' : List Char}
    (hrest : Text.Ends Char.isDigit rest) (hrest' : Text.Ends Char.isDigit rest')
    (h : (ofInt m).toList ++ rest = (ofInt n).toList ++ rest') : m = n ∧ rest = rest' := by
  rw [toList_ofInt, toList_ofInt] at h
  split at h
  · split at h
    · obtain ⟨habs, hrests⟩ := toDigits_append_inj hrest hrest' (List.cons.inj h).2
      exact ⟨by omega, hrests⟩
    · exact absurd h (minus_cons_ne_toDigits_append _ _ _)
  · split at h
    · exact absurd h.symm (minus_cons_ne_toDigits_append _ _ _)
    · obtain ⟨habs, hrests⟩ := toDigits_append_inj hrest hrest' h
      exact ⟨by omega, hrests⟩

/-- A number is read back from its hexadecimal form of any width. -/
theorem hex_injective (width : Nat) : Function.Injective (hex width) := by
  intro m n h
  have hm := denotes_hex width m
  rw [h] at hm
  exact Int.ofNat_inj.mp (hm.unique (denotes_hex width n))

/-- A character among digits is a digit. -/
theorem exists_isDigit_of_mem {radix : Nat} {cs : List Char} {ds : List Nat} {c : Char}
    (h : List.Forall₂ (IsDigit radix) cs ds) (hc : c ∈ cs) : ∃ d, IsDigit radix c d := by
  obtain ⟨i, hi, rfl⟩ := List.getElem_of_mem hc
  exact ⟨_, h.get hi (h.length_eq ▸ hi)⟩

/-- Behind its mark a hexadecimal has nothing but digits. -/
theorem eq_or_isDigit_of_mem_hex {width n : Nat} {c : Char} (h : c ∈ (hex width n).toList) :
    c = 'x' ∨ ∃ d, IsDigit 16 c d := by
  obtain ⟨ds, hds, -⟩ := @forall₂_toDigits 16 (by decide) (by decide) n
  obtain ⟨es, hes, -⟩ := forall₂_padLeft (by decide) (by decide) width hds
  rw [hex, String.toList_ofList, List.mem_cons, List.mem_cons] at h
  rcases h with rfl | rfl | h
  · exact .inr ⟨0, by decide, by decide⟩
  · exact .inl rfl
  · exact .inr (exists_isDigit_of_mem hes h)

end EventScript.Numeral
