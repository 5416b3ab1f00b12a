import EventScript.Proofs.Text.LetterCase

/-!
# Numerals in 64 bits

A reader that keeps what it has read in a signed 64-bit integer checks every product and every
sum, without knowing how many digits are still to come. A number only grows with its digits, so
such a reader fails exactly on the numerals whose magnitude is no such integer, and zeros in front
cost it nothing. The sign is applied last. The magnitude is not negative then, so its negation
cannot overflow, and the least integer is never reached.

Written numbers are read back: in decimal all integers but the least one, in hexadecimal all
that are not negative, at any width and in letters of either case.
-/

set_option autoImplicit false

namespace EventScript.Numeral

/-! ## Checked arithmetic -/

/-- What an operation on signed 64-bit integers gives, unless it overflows. -/
def checked (overflow : Bool) (result : Int64) : Option Int64 :=
  if overflow then none else some result

/-- A product of signed 64-bit integers, unless it overflows. -/
def product? (a b : Int64) : Option Int64 :=
  checked (a.toBitVec.smulOverflow b.toBitVec) (a * b)

/-- A sum of signed 64-bit integers, unless it overflows. -/
def sum? (a b : Int64) : Option Int64 :=
  checked (a.toBitVec.saddOverflow b.toBitVec) (a + b)

/-- An operation that overflows exactly beyond the signed 64-bit integers, and is exact
otherwise, gives the exact result whenever that is such an integer. -/
theorem checked_eq_some_iff {overflow : Bool} {result : Int64} {value : Int}
    (hover : overflow → value ≥ 2 ^ 63 ∨ value < -2 ^ 63)
    (hexact : ¬ overflow → result.toInt = value) (c : Int64) :
    checked overflow result = some c ↔ c.toInt = value := by
  have hlow := c.le_toInt
  have hhigh := c.toInt_lt
  cases overflow with
  | true =>
    have hbeyond := hover rfl
    have hne : c.toInt ≠ value := by omega
    simp [checked, hne]
  | false =>
    rw [← hexact Bool.false_ne_true, Int64.toInt_inj, checked, if_neg Bool.false_ne_true,
      Option.some.injEq, eq_comm]

/-- A product is given exactly if it has a value in 64 bits. -/
theorem product?_eq_some_iff (a b c : Int64) :
    product? a b = some c ↔ c.toInt = a.toInt * b.toInt := by
  refine checked_eq_some_iff ?_ BitVec.toInt_mul_of_not_smulOverflow c
  intro hover
  simpa [BitVec.smulOverflow] using hover

/-- A sum is given exactly if it has a value in 64 bits. -/
theorem sum?_eq_some_iff (a b c : Int64) :
    sum? a b = some c ↔ c.toInt = a.toInt + b.toInt := by
  refine checked_eq_some_iff ?_ BitVec.toInt_add_of_not_saddOverflow c
  intro hover
  simpa [BitVec.saddOverflow] using hover

/-! ## Reading by checked steps -/

/-- The value of digits that follow others of the value `high`, if no step overflows. -/
def checkedAfter? (radix : Nat) (high : Int64) : List Char → Option Int64
  | [] => some high
  | c :: rest => do
    let d ← digit? radix c
    let shifted ← product? high (.ofNat radix)
    let next ← sum? shifted (.ofNat d)
    checkedAfter? radix next rest

/-- The value of one or more digits, if no step overflows. -/
def checkedDigits? (radix : Nat) (cs : List Char) : Option Int64 :=
  if cs.isEmpty then none else checkedAfter? radix 0 cs

/-- The radix that the first characters of a numeral without a sign announce, and its
digits. -/
def announced : List Char → Nat × List Char
  | '0' :: 'x' :: rest => (16, rest)
  | '0' :: 'X' :: rest => (16, rest)
  | cs => (10, cs)

/-- The value of a numeral without a sign, if no step overflows. -/
def checkedMagnitude? (cs : List Char) : Option Int64 :=
  checkedDigits? (announced cs).1 (announced cs).2

/-- The value of a numeral, if no step overflows. A minus sign is kept until the digits have
been read. -/
def checkedValue? : List Char → Option Int64
  | '-' :: rest => (checkedMagnitude? rest).map (- ·)
  | cs => checkedMagnitude? cs

/-- Reads a numeral in 64 bits. -/
def checkedRead? (word : String) : Option Int64 := checkedValue? word.toList

/-- A magnitude is read from the digits behind what announces its radix. -/
theorem magnitude?_eq (cs : List Char) :
    magnitude? cs = digits? (announced cs).1 (announced cs).2 := by
  unfold magnitude?
  split
  · rfl
  · rfl
  · next hlower hupper => rw [announced.eq_3 cs hlower hupper]

/-- The radix that is announced is at least one and at most sixteen. -/
theorem announced_radix_bounds (cs : List Char) :
    0 < (announced cs).1 ∧ (announced cs).1 ≤ 16 := by
  unfold announced
  split <;> simp

/-- Digits never make a number smaller. -/
theorem le_of_digitsAfter?_eq_some {radix high n : Nat} {cs : List Char} (hpos : 0 < radix)
    (hr : radix ≤ 16) (h : digitsAfter? radix high cs = some n) : high ≤ n := by
  obtain ⟨ds, -, rfl⟩ := (digitsAfter?_eq_some_iff hr cs high n).mp h
  calc
    high ≤ high * radix ^ ds.length := Nat.le_mul_of_pos_right _ (Nat.pow_pos hpos)
    _ ≤ high * radix ^ ds.length + Nat.ofDigits radix ds.reverse := Nat.le_add_right _ _

/-- Checked steps reach the value of the digits if it is a signed 64-bit integer, and fail
otherwise. -/
theorem checkedAfter?_eq_some_iff {radix : Nat} (hpos : 0 < radix) (hr : radix ≤ 16)
    (cs : List Char) {high : Int64} {n : Nat} (hn : high.toInt = n) (m : Int64) :
    checkedAfter? radix high cs = some m ↔
      ∃ v, digitsAfter? radix n cs = some v ∧ m.toInt = v := by
  have hradix : (Int64.ofNat radix).toInt = radix := Int64.toInt_ofNat_of_lt (by omega)
  induction cs generalizing high n with
  | nil =>
    simp only [checkedAfter?, digitsAfter?, Option.some.injEq, exists_eq_left', ← hn,
      Int64.toInt_inj]
    exact eq_comm
  | cons c rest ih =>
    simp only [checkedAfter?, digitsAfter?, bind, Option.bind_eq_some_iff, product?_eq_some_iff,
      sum?_eq_some_iff]
    constructor
    · rintro ⟨d, hd, shifted, hshifted, next, hnext, hrest⟩
      have hsmall := ((digit?_eq_some_iff hr c d).mp hd).1
      rw [hn, hradix] at hshifted
      rw [hshifted, Int64.toInt_ofNat_of_lt (by omega)] at hnext
      have hvalue : next.toInt = (n * radix + d : Nat) := by
        rw [hnext, Nat.cast_add, Nat.cast_mul]
      obtain ⟨v, hv, hm⟩ := (ih hvalue).mp hrest
      exact ⟨v, ⟨d, hd, hv⟩, hm⟩
    · rintro ⟨v, ⟨d, hd, hv⟩, hm⟩
      have hsmall := ((digit?_eq_some_iff hr c d).mp hd).1
      -- what has been read so far is at most the value, so it has not overflowed
      have hle := le_of_digitsAfter?_eq_some hpos hr hv
      have hhigh := m.toInt_lt
      have hshifted : (Int64.ofNat (n * radix)).toInt = (n * radix : Nat) :=
        Int64.toInt_ofNat_of_lt (by omega)
      have hnext : (Int64.ofNat (n * radix + d)).toInt = (n * radix + d : Nat) :=
        Int64.toInt_ofNat_of_lt (by omega)
      refine ⟨d, hd, .ofNat (n * radix), ?_, _, ?_, (ih hnext).mpr ⟨v, hv, hm⟩⟩
      · rw [hshifted, hn, hradix, Nat.cast_mul]
      · rw [hnext, hshifted, Int64.toInt_ofNat_of_lt (by omega), Nat.cast_add]

/-- A magnitude is read in 64 bits exactly if it has a value there. -/
theorem checkedMagnitude?_eq_some_iff (cs : List Char) (m : Int64) :
    checkedMagnitude? cs = some m ↔ ∃ v, magnitude? cs = some v ∧ m.toInt = v := by
  obtain ⟨hpos, hr⟩ := announced_radix_bounds cs
  have hsteps := checkedAfter?_eq_some_iff hpos hr (announced cs).2 Int64.toInt_zero m
  rw [magnitude?_eq, checkedMagnitude?, checkedDigits?, digits?]
  cases (announced cs).2.isEmpty with
  | true => simp
  | false => exact hsteps

/-- The magnitude that has been read when the sign is applied can be negated. -/
theorem negOverflow_checkedMagnitude? {cs : List Char} {m : Int64}
    (h : checkedMagnitude? cs = some m) : m.toBitVec.negOverflow = false := by
  obtain ⟨v, -, hm⟩ := (checkedMagnitude?_eq_some_iff cs m).mp h
  rw [Bool.eq_false_iff]
  intro hover
  rw [BitVec.negOverflow, beq_iff_eq, Int64.toInt_toBitVec] at hover
  omega

/-- The negation of a magnitude that was read never overflows. -/
theorem toInt_neg_checkedMagnitude? {cs : List Char} {m : Int64}
    (h : checkedMagnitude? cs = some m) : (-m).toInt = -m.toInt :=
  BitVec.toInt_neg_of_not_negOverflow (Bool.eq_false_iff.mp (negOverflow_checkedMagnitude? h))

/-- A numeral is read in 64 bits exactly if its magnitude is within the limit. -/
theorem checkedValue?_eq_some_iff (cs : List Char) (m : Int64) :
    checkedValue? cs = some m ↔ value? cs = some m.toInt ∧ m.toInt.natAbs ≤ maxMagnitude := by
  have hhigh := m.toInt_lt
  unfold checkedValue? maxMagnitude
  split
  · next rest =>
    rw [value?, Option.map_eq_some_iff, Option.map_eq_some_iff]
    constructor
    · rintro ⟨k, hk, rfl⟩
      obtain ⟨v, hv, hkv⟩ := (checkedMagnitude?_eq_some_iff rest k).mp hk
      have hlt := k.toInt_lt
      rw [toInt_neg_checkedMagnitude? hk, hkv]
      exact ⟨⟨v, hv, rfl⟩, by omega⟩
    · rintro ⟨⟨v, hv, hm⟩, hmax⟩
      have hk : (Int64.ofNat v).toInt = v := Int64.toInt_ofNat_of_lt (by omega)
      have hread := (checkedMagnitude?_eq_some_iff rest _).mpr ⟨v, hv, hk⟩
      refine ⟨_, hread, Int64.toInt_inj.mp ?_⟩
      rw [toInt_neg_checkedMagnitude? hread, hk, hm]
  · next hsign =>
    rw [value?.eq_2 _ hsign, checkedMagnitude?_eq_some_iff, Option.map_eq_some_iff]
    constructor
    · rintro ⟨v, hv, hm⟩
      exact ⟨⟨v, hv, hm.symm⟩, by omega⟩
    · rintro ⟨⟨v, hv, hm⟩, -⟩
      exact ⟨v, hv, hm.symm⟩

/-- The reader that computes in 64 bits reads exactly what the reader of integers reads. -/
theorem checkedRead?_eq_some_iff (word : String) (m : Int64) :
    checkedRead? word = some m ↔ read? word = some m.toInt := by
  rw [checkedRead?, checkedValue?_eq_some_iff, read?_eq_some_iff, value?_eq_some_iff]

/-- Reading by checked steps gives what reading gives. -/
theorem map_toInt_checkedRead? (word : String) :
    (checkedRead? word).map Int64.toInt = read? word := by
  ext n
  simp only [Option.map_eq_some_iff, checkedRead?_eq_some_iff]
  constructor
  · rintro ⟨m, hm, rfl⟩
    exact hm
  · intro h
    have hmax := ((read?_eq_some_iff word n).mp h).2
    unfold maxMagnitude at hmax
    have hn : (Int64.ofInt n).toInt = n := Int64.toInt_ofInt_of_le (by omega) (by omega)
    exact ⟨.ofInt n, by rw [hn, h], hn⟩

/-! ## Reading what is written -/

/-- A decimal is read back unless it is the least integer in 64 bits. -/
theorem read?_ofInt_iff (n : Int64) :
    read? (ofInt n.toInt) = some n.toInt ↔ n ≠ Int64.minValue := by
  have hlow := n.le_toInt
  have hhigh := n.toInt_lt
  have hdenotes := denotes_ofInt n.toInt
  rw [read?_eq_some_iff, ne_eq, ← Int64.toInt_inj, Int64.toInt_minValue, maxMagnitude]
  constructor
  · rintro ⟨-, hmax⟩
    omega
  · intro hne
    exact ⟨hdenotes, by omega⟩

/-- A hexadecimal of any width, with its letters in either case, is read back. -/
theorem read?_of_lowered_eq_hex {word : String} {width n : Nat} (hn : n ≤ maxMagnitude)
    (same : Text.lowered word.toList = Text.lowered (hex width n).toList) :
    read? word = some n :=
  (read?_eq_some_iff word n).mpr ⟨(denotes_hex width n).of_lowered_eq same.symm, hn⟩

end EventScript.Numeral
