import EventScript.Text.Numeral
import Mathlib.Data.List.Forall2
import Mathlib.Data.Nat.Digits.Defs

/-!
# What numerals denote

A numeral is described by its digits and their positional value: an optional minus
sign, an optional mark of the hexadecimal radix, and one or more digits of the radix,
whose letters may be in either case. Numerals of any length denote an integer. The
reader refuses those of a great magnitude, and no others.
-/

set_option autoImplicit false

namespace EventScript.Numeral

/-- A digit of a radix of at most sixteen, and its value. -/
def IsDigit (radix : Nat) (c : Char) (d : Nat) : Prop := d < radix ∧ c.toLower = d.digitChar

/-- `DenotesMagnitude cs n`: the characters `cs` are the digits of `n`, the most
significant first, in decimal, or in hexadecimal behind a mark. -/
inductive DenotesMagnitude : List Char → Nat → Prop where
  | decimal {cs : List Char} {ds : List Nat} (hne : cs ≠ [])
      (digits : List.Forall₂ (IsDigit 10) cs ds) :
      DenotesMagnitude cs (Nat.ofDigits 10 ds.reverse)
  | hexadecimal {mark : Char} {cs : List Char} {ds : List Nat} (hmark : mark.toLower = 'x')
      (hne : cs ≠ []) (digits : List.Forall₂ (IsDigit 16) cs ds) :
      DenotesMagnitude ('0' :: mark :: cs) (Nat.ofDigits 16 ds.reverse)

/-- `Denotes cs n`: the characters `cs` are a numeral for `n`. -/
inductive Denotes : List Char → Int → Prop where
  | unsigned {cs : List Char} {n : Nat} (magnitude : DenotesMagnitude cs n) : Denotes cs n
  | negative {cs : List Char} {n : Nat} (magnitude : DenotesMagnitude cs n) :
      Denotes ('-' :: cs) (-n)

/-! ## Digits -/

/-- A character up to one of ASCII is one of ASCII. -/
theorem toNat_lt_of_le {c high : Char} (h : c ≤ high) (hhigh : high.toNat < 128) :
    c.toNat < 128 :=
  Nat.lt_of_le_of_lt h hhigh

/-- Only characters of ASCII are lowered to such. -/
theorem toNat_lt_of_toLower {c : Char} (h : c.toLower.toNat < 128) : c.toNat < 128 := by
  by_cases hupper : c.val ≥ 'A'.val ∧ c.val ≤ 'Z'.val
  · have hz : c ≤ 'Z' := hupper.2
    exact toNat_lt_of_le hz (by decide)
  · have hself : c.toLower = c := by
      unfold Char.toLower
      rw [dif_neg hupper]
    rwa [hself] at h

/-- A character beyond ASCII is no digit. -/
theorem toNat_lt_of_isDigit {radix d : Nat} {c : Char} (h : IsDigit radix c d) (hr : radix ≤ 16) :
    c.toNat < 128 := by
  have hdigit : ∀ d : Fin 16, d.val.digitChar.toNat < 128 := by decide
  apply toNat_lt_of_toLower
  rw [h.2]
  exact hdigit ⟨d, Nat.lt_of_lt_of_le h.1 hr⟩

/-- Only characters of ASCII are digits. -/
theorem toNat_lt_of_digit? {radix d : Nat} {c : Char} (h : digit? radix c = some d) :
    c.toNat < 128 := by
  unfold digit? at h
  split at h
  · next hrange => exact toNat_lt_of_le hrange.2 (by decide)
  split at h
  · next hrange => exact toNat_lt_of_le hrange.2 (by decide)
  split at h
  · next hrange => exact toNat_lt_of_le hrange.2 (by decide)
  · cases h

/-- The digits of a radix are those hexadecimal digits whose values are below it. -/
theorem digit?_eq_some_iff_sixteen {radix : Nat} (hr : radix ≤ 16) (c : Char) (d : Nat) :
    digit? radix c = some d ↔ d < radix ∧ digit? 16 c = some d := by
  unfold digit?
  rw [Option.filter_eq_some_iff, Option.filter_eq_some_iff]
  simp only [decide_eq_true_eq]
  constructor
  · rintro ⟨hvalue, hd⟩
    exact ⟨hd, hvalue, by omega⟩
  · rintro ⟨hd, hvalue, -⟩
    exact ⟨hvalue, hd⟩

/-- The reader knows the digits of a radix and their values. -/
theorem digit?_eq_some_iff {radix : Nat} (hr : radix ≤ 16) (c : Char) (d : Nat) :
    digit? radix c = some d ↔ IsDigit radix c d := by
  -- both sides speak of ASCII and of values below sixteen only
  have every : ∀ (k : Fin 128) (e : Fin 16), digit? 16 (Char.ofNat k) = some e.val ↔
      (Char.ofNat k).toLower = e.val.digitChar := by
    decide +kernel
  have hcase : c.toNat < 128 → d < radix → (digit? 16 c = some d ↔ c.toLower = d.digitChar) := by
    intro hc hd
    have h := every ⟨c.toNat, hc⟩ ⟨d, Nat.lt_of_lt_of_le hd hr⟩
    rwa [Char.ofNat_toNat] at h
  rw [digit?_eq_some_iff_sixteen hr]
  constructor
  · rintro ⟨hd, h⟩
    exact ⟨hd, (hcase (toNat_lt_of_digit? h) hd).mp h⟩
  · intro h
    exact ⟨h.1, (hcase (toNat_lt_of_isDigit h hr) h.1).mpr h.2⟩

/-- Digits that are read behind others have their positional value. -/
theorem digitsAfter?_eq_some_iff {radix : Nat} (hr : radix ≤ 16) (cs : List Char)
    (high n : Nat) :
    digitsAfter? radix high cs = some n ↔
      ∃ ds, List.Forall₂ (IsDigit radix) cs ds ∧
        n = high * radix ^ ds.length + Nat.ofDigits radix ds.reverse := by
  induction cs generalizing high with
  | nil =>
    simp only [digitsAfter?, Option.some.injEq, List.forall₂_nil_left_iff, exists_eq_left]
    simp [eq_comm]
  | cons c rest ih =>
    rw [digitsAfter?, Option.bind_eq_some_iff]
    constructor
    · rintro ⟨d, hd, hrest⟩
      obtain ⟨ds, hds, rfl⟩ := (ih _).mp hrest
      refine ⟨d :: ds, .cons ((digit?_eq_some_iff hr c d).mp hd) hds, ?_⟩
      rw [Nat.ofDigits_reverse_cons, List.length_cons, pow_succ]
      ring
    · rintro ⟨_, hds, rfl⟩
      cases hds with
      | cons hd hrest =>
        rename_i d ds
        refine ⟨d, (digit?_eq_some_iff hr c d).mpr hd, (ih _).mpr ⟨ds, hrest, ?_⟩⟩
        rw [Nat.ofDigits_reverse_cons, List.length_cons, pow_succ]
        ring

/-- Digits are read as the number that they are in their radix, if there are any. -/
theorem digits?_eq_some_iff {radix : Nat} (hr : radix ≤ 16) (cs : List Char) (n : Nat) :
    digits? radix cs = some n ↔
      cs ≠ [] ∧ ∃ ds, List.Forall₂ (IsDigit radix) cs ds ∧ n = Nat.ofDigits radix ds.reverse := by
  cases cs with
  | nil => simp [digits?]
  | cons c rest =>
    have h := digitsAfter?_eq_some_iff hr (c :: rest) 0 n
    simp only [Nat.zero_mul, Nat.zero_add] at h
    simp [digits?, h]

/-! ## Reading -/

/-- The mark of hexadecimal numerals is small or large. -/
theorem eq_of_toLower_eq_x {mark : Char} (h : mark.toLower = 'x') : mark = 'x' ∨ mark = 'X' := by
  have every : ∀ k : Fin 128, (Char.ofNat k).toLower = 'x' →
      Char.ofNat k = 'x' ∨ Char.ofNat k = 'X' := by decide
  have hascii : mark.toNat < 128 := by
    apply toNat_lt_of_toLower
    rw [h]
    decide
  have hmark := every ⟨mark.toNat, hascii⟩
  rw [Char.ofNat_toNat] at hmark
  exact hmark h

/-- Neither a minus sign nor the mark of a radix is a decimal digit. -/
theorem not_isDigit_of_digit?_eq_none {c : Char} (hc : digit? 10 c = none) (d : Nat) :
    ¬ IsDigit 10 c d := by
  intro h
  rw [← digit?_eq_some_iff (by decide), hc] at h
  cases h

/-- A magnitude is read exactly from the numerals without a sign that denote it. -/
theorem magnitude?_eq_some_iff (cs : List Char) (n : Nat) :
    magnitude? cs = some n ↔ DenotesMagnitude cs n := by
  constructor
  · intro h
    unfold magnitude? at h
    split at h
    · obtain ⟨hne, ds, hds, rfl⟩ := (digits?_eq_some_iff (by decide) _ _).mp h
      exact .hexadecimal (by decide) hne hds
    · obtain ⟨hne, ds, hds, rfl⟩ := (digits?_eq_some_iff (by decide) _ _).mp h
      exact .hexadecimal (by decide) hne hds
    · obtain ⟨hne, ds, hds, rfl⟩ := (digits?_eq_some_iff (by decide) _ _).mp h
      exact .decimal hne hds
  · intro h
    cases h with
    | decimal hne hds =>
      have hdigits : digits? 10 cs = some _ :=
        (digits?_eq_some_iff (by decide) _ _).mpr ⟨hne, _, hds, rfl⟩
      unfold magnitude?
      split
      · rcases hds with _ | ⟨-, _ | ⟨hx, -⟩⟩
        exact absurd hx (not_isDigit_of_digit?_eq_none (by decide) _)
      · rcases hds with _ | ⟨-, _ | ⟨hx, -⟩⟩
        exact absurd hx (not_isDigit_of_digit?_eq_none (by decide) _)
      · exact hdigits
    | hexadecimal hmark hne hds =>
      have hdigits := (digits?_eq_some_iff (by decide) _ _).mpr ⟨hne, _, hds, rfl⟩
      rcases eq_of_toLower_eq_x hmark with rfl | rfl
      · exact hdigits
      · exact hdigits

/-- A numeral of any length has the value that it denotes. -/
theorem value?_eq_some_iff (cs : List Char) (n : Int) : value? cs = some n ↔ Denotes cs n := by
  constructor
  · intro h
    unfold value? at h
    split at h
    · obtain ⟨m, hm, rfl⟩ := Option.map_eq_some_iff.mp h
      exact .negative ((magnitude?_eq_some_iff _ _).mp hm)
    · obtain ⟨m, hm, rfl⟩ := Option.map_eq_some_iff.mp h
      exact .unsigned ((magnitude?_eq_some_iff _ _).mp hm)
  · intro h
    cases h with
    | unsigned magnitude =>
      unfold value?
      split
      · -- a magnitude does not begin with a minus sign
        cases magnitude with
        | decimal hne hds =>
          rcases hds with _ | ⟨hminus, -⟩
          exact absurd hminus (not_isDigit_of_digit?_eq_none (by decide) _)
      · rw [(magnitude?_eq_some_iff _ _).mpr magnitude, Option.map_some]
    | negative magnitude =>
      rw [value?, (magnitude?_eq_some_iff _ _).mpr magnitude, Option.map_some]

/-- A numeral denotes one integer. -/
theorem Denotes.unique {cs : List Char} {m n : Int} (hm : Denotes cs m) (hn : Denotes cs n) :
    m = n := by
  rw [← value?_eq_some_iff] at hm hn
  exact Option.some.inj (hm.symm.trans hn)

/-- The reader gives what a numeral denotes, up to the greatest magnitude. -/
theorem read?_eq_some_iff (word : String) (n : Int) :
    read? word = some n ↔ Denotes word.toList n ∧ n.natAbs ≤ maxMagnitude := by
  rw [read?, Option.filter_eq_some_iff, value?_eq_some_iff, decide_eq_true_eq]

/-- A word is not read exactly if it denotes nothing, or something beyond the limit. -/
theorem read?_eq_none_iff (word : String) :
    read? word = none ↔ ∀ n, Denotes word.toList n → maxMagnitude < n.natAbs := by
  simp only [Option.eq_none_iff_forall_ne_some, ne_eq, read?_eq_some_iff, not_and, Nat.not_le]

/-! ## Writing -/

/-- The character of a digit is this digit. -/
theorem isDigit_digitChar {radix d : Nat} (hr : radix ≤ 16) (hd : d < radix) :
    IsDigit radix d.digitChar d := by
  have every : ∀ e : Fin 16, e.val.digitChar.toLower = e.val.digitChar := by decide
  exact ⟨hd, every ⟨d, Nat.lt_of_lt_of_le hd hr⟩⟩

/-- The digits that are written have the value of the number. -/
theorem forall₂_toDigits {radix : Nat} (hlow : 1 < radix) (hr : radix ≤ 16) (n : Nat) :
    ∃ ds, List.Forall₂ (IsDigit radix) (Nat.toDigits radix n) ds ∧
      Nat.ofDigits radix ds.reverse = n := by
  induction n using Nat.base_induction radix hlow with
  | single d hd =>
    refine ⟨[d], ?_, Nat.ofDigits_singleton⟩
    rw [Nat.toDigits_of_lt_base hd]
    exact .cons (isDigit_digitChar hr hd) .nil
  | digit m d hd hm ih =>
    obtain ⟨ds, hds, hvalue⟩ := ih
    refine ⟨ds ++ [d], ?_, ?_⟩
    · rw [← Nat.toDigits_append_toDigits hlow hm hd, Nat.toDigits_of_lt_base hd]
      exact List.rel_append hds (.cons (isDigit_digitChar hr hd) .nil)
    · rw [List.reverse_append, List.reverse_singleton, List.singleton_append, Nat.ofDigits_cons,
        hvalue, Nat.add_comm]

/-- Zeros in front change no value. -/
theorem forall₂_padLeft {radix : Nat} (hlow : 0 < radix) (hr : radix ≤ 16) (width : Nat)
    {cs : List Char} {ds : List Nat} (h : List.Forall₂ (IsDigit radix) cs ds) :
    ∃ es, List.Forall₂ (IsDigit radix) (padLeft '0' width cs) es ∧
      Nat.ofDigits radix es.reverse = Nat.ofDigits radix ds.reverse := by
  refine ⟨List.replicate (width - cs.length) 0 ++ ds, ?_, ?_⟩
  · refine List.rel_append ?_ h
    induction width - cs.length with
    | zero => exact .nil
    | succ k ih => exact .cons (isDigit_digitChar hr hlow) ih
  · rw [List.reverse_append, List.reverse_replicate, Nat.ofDigits_append_replicate_zero]

/-- The decimal digits of a number denote it. -/
theorem denotesMagnitude_toDigits (n : Nat) : DenotesMagnitude (Nat.toDigits 10 n) n := by
  obtain ⟨ds, hds, hvalue⟩ := @forall₂_toDigits 10 (by decide) (by decide) n
  have h := DenotesMagnitude.decimal Nat.toDigits_ne_nil hds
  rwa [hvalue] at h

/-- A decimal is the digits of the magnitude, behind a minus sign if it is negative. -/
theorem toList_ofInt (n : Int) : (ofInt n).toList =
    if n < 0 then '-' :: Nat.toDigits 10 n.natAbs else Nat.toDigits 10 n.natAbs := by
  cases n with
  | ofNat m => exact Nat.toList_repr
  | negSucc m =>
    rw [if_pos (Int.negSucc_lt_zero m), Int.natAbs_negSucc, ← Nat.toList_repr]
    change ("-" ++ Nat.repr (m + 1)).toList = _
    rw [String.toList_append]
    rfl

/-- A decimal denotes the integer that it was written for. -/
theorem denotes_ofInt (n : Int) : Denotes (ofInt n).toList n := by
  rw [toList_ofInt]
  split
  · next hneg =>
    have h := Denotes.negative (denotesMagnitude_toDigits n.natAbs)
    rwa [Int.ofNat_natAbs_of_nonpos (Int.le_of_lt hneg), Int.neg_neg] at h
  · next hnonneg =>
    have h := Denotes.unsigned (denotesMagnitude_toDigits n.natAbs)
    rwa [Int.natAbs_of_nonneg (Int.not_lt.mp hnonneg)] at h

/-- A hexadecimal of any width denotes the number that it was written for. -/
theorem denotes_hex (width n : Nat) : Denotes (hex width n).toList n := by
  obtain ⟨ds, hds, hvalue⟩ := @forall₂_toDigits 16 (by decide) (by decide) n
  obtain ⟨es, hes, hpadded⟩ := forall₂_padLeft (by decide) (by decide) width hds
  have hne : padLeft '0' width (Nat.toDigits 16 n) ≠ [] := by
    simp [padLeft]
  have hmark : 'x'.toLower = 'x' := by decide
  have h := DenotesMagnitude.hexadecimal hmark hne hes
  rw [hpadded, hvalue] at h
  rw [hex, String.toList_ofList]
  exact .unsigned h

end EventScript.Numeral
