import EventScript.Proofs.Text.Numeral
import EventScript.Proofs.Text.Segment
import EventScript.Proofs.Text.Word
import Mathlib

/-!
# Letter case

Texts are compared up to the case of the letters of ASCII by writing both in small letters.
No blank, line feed or sign is a letter, so a text in small letters has the words and the
segments of the text, in small letters; and a numeral denotes the same in either case.
-/

set_option autoImplicit false

namespace EventScript.Text

/-- A text with its letters in small ones. Letters beyond ASCII stay as they are. -/
def lowered (cs : List Char) : List Char := cs.map Char.toLower

/-- Characters are lowered one by one. -/
@[simp]
theorem lowered_cons (c : Char) (cs : List Char) :
    lowered (c :: cs) = c.toLower :: lowered cs := rfl

/-- A character that is no letter is found in small letters exactly where it was. -/
theorem toLower_eq_iff {d : Char} (hd : d.isAlpha = false) (c : Char) : c.toLower = d ↔ c = d := by
  have hself : ∀ e : Char, e.isAlpha = false → e.toLower = e := by
    intro e he
    apply Char.toLower_eq_of_not_isUpper
    rw [Char.isAlpha, Bool.or_eq_false_iff] at he
    rw [he.1]
    decide
  constructor
  · rintro rfl
    rw [Char.isAlpha_toLower_eq_isAlpha] at hd
    exact (hself c hd).symm
  · rintro rfl
    exact hself c hd

/-- What begins with a character that is no letter begins with it in either case. -/
theorem exists_cons_of_lowered_eq {c : Char} {cs ds : List Char} (hc : c.isAlpha = false)
    (same : lowered (c :: cs) = lowered ds) : ∃ es, ds = c :: es ∧ lowered cs = lowered es := by
  cases ds with
  | nil => cases same
  | cons d es =>
    rw [lowered_cons, lowered_cons, List.cons.injEq, (toLower_eq_iff hc c).mpr rfl] at same
    exact ⟨es, by rw [(toLower_eq_iff hc d).mp same.1.symm], same.2⟩

/-- No blank is a letter. -/
theorem isAlpha_of_isBlank {c : Char} (h : isBlank c = true) : c.isAlpha = false := by
  rw [Bool.eq_false_iff]
  intro halpha
  simp only [isBlank, blankRanges, List.any_cons, List.any_nil, Bool.or_false, Bool.or_eq_true,
    Bool.and_eq_true, decide_eq_true_eq] at h
  simp only [Char.isAlpha, Char.isUpper, Char.isLower, Bool.or_eq_true, Bool.and_eq_true,
    decide_eq_true_eq, ge_iff_le, UInt32.le_iff_toNat_le] at halpha
  have hc : c.toNat = c.val.toNat := rfl
  have hA : 'A'.val.toNat = 65 := rfl
  have hZ : 'Z'.val.toNat = 90 := rfl
  have ha : 'a'.val.toNat = 97 := rfl
  have hz : 'z'.val.toNat = 122 := rfl
  omega

/-- Lowering makes no blank and takes none away. -/
theorem isBlank_toLower (c : Char) : isBlank c.toLower = isBlank c := by
  rw [Bool.eq_iff_iff]
  constructor
  · intro h
    rwa [← (toLower_eq_iff (isAlpha_of_isBlank h) c).mp rfl] at h
  · intro h
    rwa [(toLower_eq_iff (isAlpha_of_isBlank h) c).mpr rfl]

/-! ## Words and segments -/

/-- A lowered line has the lowered pieces. -/
theorem pieces_lowered (cs : List Char) : pieces (lowered cs) = (pieces cs).map lowered := by
  induction cs with
  | nil => rfl
  | cons c rest ih =>
    rw [lowered_cons, pieces, pieces, isBlank_toLower, ih]
    cases isBlank c with
    | true => rfl
    | false => cases pieces rest <;> rfl

/-- A lowered line has the lowered words. -/
theorem wordChars_lowered (cs : List Char) :
    wordChars (lowered cs) = (wordChars cs).map lowered := by
  rw [wordChars, pieces_lowered, List.filter_map, wordChars]
  congr 2
  funext piece
  cases piece <;> rfl

/-- A lowered text has the lowered lines. -/
theorem segments_lowered (cs : List Char) : segments (lowered cs) = (segments cs).map lowered := by
  induction cs with
  | nil => rfl
  | cons c rest ih =>
    have hlineFeed := toLower_eq_iff (by decide : '\n'.isAlpha = false) c
    by_cases hc : c = '\n'
    · rw [lowered_cons, hlineFeed.mpr hc, hc, segments_lineFeed_cons, segments_lineFeed_cons, ih]
      rfl
    · rw [lowered_cons, segments_cons_of_ne (mt hlineFeed.mp hc), segments_cons_of_ne hc, ih]
      cases segments rest <;> rfl

end EventScript.Text

namespace EventScript.Numeral

open EventScript.Text

variable {cs ds : List Char}

/-- A lowered digit is the same digit. -/
theorem isDigit_toLower_iff (radix : Nat) (c : Char) (d : Nat) :
    IsDigit radix c.toLower d ↔ IsDigit radix c d := by
  rw [IsDigit, IsDigit, Char.toLower_toLower_eq_toLower]

/-- Lowered digits are the same digits. -/
theorem forall₂_isDigit_lowered_iff {radix : Nat} (cs : List Char) (digits : List Nat) :
    List.Forall₂ (IsDigit radix) (lowered cs) digits ↔ List.Forall₂ (IsDigit radix) cs digits := by
  rw [lowered, List.forall₂_map_left_iff]
  simp only [isDigit_toLower_iff]

/-- What is lowered to something is something. -/
theorem ne_nil_of_lowered_eq (hne : cs ≠ []) (same : lowered cs = lowered ds) : ds ≠ [] := by
  rintro rfl
  exact hne (List.map_eq_nil_iff.mp same)

/-- Letter case makes no difference to a magnitude. -/
theorem DenotesMagnitude.of_lowered_eq {n : Nat} (h : DenotesMagnitude cs n)
    (same : lowered cs = lowered ds) : DenotesMagnitude ds n := by
  cases h with
  | decimal hne digits =>
    rw [← forall₂_isDigit_lowered_iff, same, forall₂_isDigit_lowered_iff] at digits
    exact .decimal (ne_nil_of_lowered_eq hne same) digits
  | @hexadecimal mark digits _ hmark hne hdigits =>
    obtain ⟨behind, rfl, hbehind⟩ := exists_cons_of_lowered_eq (by decide) same
    cases behind with
    | nil => cases hbehind
    | cons mark' rest =>
      rw [lowered_cons, lowered_cons, List.cons.injEq] at hbehind
      rw [← forall₂_isDigit_lowered_iff, hbehind.2, forall₂_isDigit_lowered_iff] at hdigits
      exact .hexadecimal (hbehind.1 ▸ hmark) (ne_nil_of_lowered_eq hne hbehind.2) hdigits

/-- A numeral denotes the same with its letters in the other case. -/
theorem Denotes.of_lowered_eq {n : Int} (h : Denotes cs n) (same : lowered cs = lowered ds) :
    Denotes ds n := by
  cases h with
  | unsigned magnitude => exact .unsigned (magnitude.of_lowered_eq same)
  | negative magnitude =>
    obtain ⟨rest, rfl, hrest⟩ := exists_cons_of_lowered_eq (by decide) same
    exact .negative (magnitude.of_lowered_eq hrest)

end EventScript.Numeral
