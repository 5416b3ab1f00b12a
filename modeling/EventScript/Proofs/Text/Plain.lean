import EventScript.Proofs.Text.Delimited

/-!
# Plain texts

A text is plain if it can stand between quotation marks as it is: it has no quotation mark, no
backslash and no control character. Numerals are plain, and so is what is put together from
plain texts.
-/

set_option autoImplicit false

namespace EventScript.Text

/-- Whether a character is a control character: one before the blank, the one behind the last
of ASCII that is printed, or one of the range that follows. -/
def isControl (c : Char) : Bool := c.toNat < 0x20 || (0x7f ≤ c.toNat && c.toNat < 0xa0)

/-- Whether a character is neither a quotation mark nor a backslash nor a control character. -/
def isPlain (c : Char) : Bool := c != '"' && c != '\\' && !isControl c

/-- `Plain text`: every character of the text is plain. -/
def Plain (text : String) : Prop := ∀ c ∈ text.toList, isPlain c = true

instance (text : String) : Decidable (Plain text) := List.decidableBAll _ _

variable {first second separator : String} {words : List String}

/-- Plain text behind plain text is plain. -/
theorem Plain.append (h : Plain first) (h' : Plain second) : Plain (first ++ second) := by
  intro c hc
  rw [String.toList_append] at hc
  rcases List.mem_append.mp hc with hc | hc
  · exact h c hc
  · exact h' c hc

/-- Plain words with a plain separator between are plain. -/
theorem Plain.intercalate (hseparator : Plain separator) (h : ∀ word ∈ words, Plain word) :
    Plain (separator.intercalate words) := by
  induction words with
  | nil => exact fun _ => nofun
  | cons word others ih =>
    obtain ⟨hword, hothers⟩ := List.forall_mem_cons.mp h
    cases others with
    | nil => simpa using hword
    | cons next others =>
      rw [String.intercalate_cons_cons]
      exact (hword.append hseparator).append (ih hothers)

/-- No control character is found in a plain text. -/
theorem Plain.not_mem {c : Char} (h : Plain first) (hc : isControl c = true) :
    c ∉ first.toList := by
  intro hmem
  have hplain := h c hmem
  simp [isPlain, hc] at hplain

end EventScript.Text

namespace EventScript.Numeral

/-- Digits are plain. -/
theorem IsDigit.isPlain {radix d : Nat} {c : Char} (h : IsDigit radix c d) (hr : radix ≤ 16) :
    Text.isPlain c = true := by
  have every : ∀ k : Fin 128, (digit? 16 (Char.ofNat k)).isSome = true →
      Text.isPlain (Char.ofNat k) = true := by decide +kernel
  have hdigit := ((digit?_eq_some_iff_sixteen hr c d).mp ((digit?_eq_some_iff hr c d).mpr h)).2
  have hplain := every ⟨c.toNat, toNat_lt_of_isDigit h hr⟩
  rw [Char.ofNat_toNat] at hplain
  exact hplain (Option.isSome_of_eq_some hdigit)

/-- Hexadecimal numerals are plain. -/
theorem plain_hex (width n : Nat) : Text.Plain (hex width n) := by
  intro c hc
  rcases eq_or_isDigit_of_mem_hex hc with rfl | ⟨d, hdigit⟩
  · decide
  · exact hdigit.isPlain (Nat.le_refl 16)

/-- Decimal digits are plain. -/
theorem isPlain_of_mem_toDigits {n : Nat} {c : Char} (h : c ∈ Nat.toDigits 10 n) :
    Text.isPlain c = true := by
  obtain ⟨ds, hds, -⟩ := @forall₂_toDigits 10 (by decide) (by decide) n
  obtain ⟨d, hdigit⟩ := exists_isDigit_of_mem hds h
  exact hdigit.isPlain (by decide)

/-- Decimal numerals are plain, those with a sign included. -/
theorem plain_ofInt (n : Int) : Text.Plain (ofInt n) := by
  intro c hc
  rw [toList_ofInt] at hc
  split at hc
  · rcases List.mem_cons.mp hc with rfl | hc
    · decide
    · exact isPlain_of_mem_toDigits hc
  · exact isPlain_of_mem_toDigits hc

/-- Decimal numerals of natural numbers are plain. -/
theorem plain_ofNat (n : Nat) : Text.Plain (ofNat n) := plain_ofInt n

end EventScript.Numeral
