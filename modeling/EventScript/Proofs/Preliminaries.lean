import Mathlib.Data.Int.ModEq

/-!
# Preliminaries

Two things that are used all over the library. A word of fixed width keeps the low bits of an
integer, which are its remainder by the number of words; an integer that the word can hold is kept
as it is. And a computation in stages succeeds if every stage does, each on what the one before it
gave, while what is done with a result changes nothing about a failure.
-/

set_option autoImplicit false

namespace EventScript

/-! ## Words of fixed width -/

/-- `ofInt` keeps of an integer its remainder by `size`: there is one word, with the number that
`toNat` gives, for every remainder. -/
structure Wraps {Word : Type} (size : Int) (ofInt : Int → Word) (toNat : Word → Nat) : Prop where
  /-- Words with the same number are the same. -/
  toNat_inj : ∀ {word word' : Word}, toNat word = toNat word' → word = word'
  /-- Every number is a remainder. -/
  toNat_lt : ∀ word, (toNat word : Int) < size
  /-- The number of the word of an integer is the remainder of the integer. -/
  toNat_ofInt : ∀ n, (toNat (ofInt n) : Int) = n % size

/-- Words of two bytes keep the remainder by their number. -/
theorem uint16_wraps : Wraps 0x10000 UInt16.ofInt UInt16.toNat where
  toNat_inj := UInt16.toNat_inj.mp
  toNat_lt word := by
    have hword := word.toNat_lt
    omega
  toNat_ofInt n := by
    rw [UInt16.ofInt, UInt16.toNat_ofNat']
    omega

/-- Bytes keep the remainder by their number. -/
theorem uint8_wraps : Wraps 0x100 UInt8.ofInt UInt8.toNat where
  toNat_inj := UInt8.toNat_inj.mp
  toNat_lt word := by
    have hword := word.toNat_lt
    omega
  toNat_ofInt n := by
    rw [UInt8.ofInt, UInt8.toNat_ofNat']
    omega

namespace Wraps

variable {Word : Type} {size : Int} {ofInt : Int → Word} {toNat : Word → Nat}

/-- The word of an integer is the one that is its remainder. -/
theorem ofInt_eq_iff (wraps : Wraps size ofInt toNat) {n : Int} {word : Word} :
    ofInt n = word ↔ (toNat word : Int) = n % size := by
  rw [← wraps.toNat_ofInt, Int.natCast_inj]
  constructor
  · rintro rfl
    rfl
  · intro h
    exact (wraps.toNat_inj h).symm

/-- A word is the remainder of the integers that are congruent to it. -/
theorem toNat_eq_emod_iff (wraps : Wraps size ofInt toNat) {n : Int} {word : Word} :
    (toNat word : Int) = n % size ↔ n ≡ toNat word [ZMOD size] := by
  rw [Int.ModEq, Int.emod_eq_of_lt (Int.natCast_nonneg _) (wraps.toNat_lt word), eq_comm]

/-- Integers with the same remainder have the same word. -/
theorem ofInt_eq_of_emod_eq (wraps : Wraps size ofInt toNat) {n m : Int} (h : n % size = m % size) :
    ofInt n = ofInt m := by
  rw [wraps.ofInt_eq_iff, wraps.toNat_ofInt, h]

/-- A word is the word of its own number. -/
theorem ofInt_toNat (wraps : Wraps size ofInt toNat) (word : Word) : ofInt (toNat word) = word := by
  rw [wraps.ofInt_eq_iff, Int.emod_eq_of_lt (Int.natCast_nonneg _) (wraps.toNat_lt word)]

/-- The numbers of words are the integers from zero up to the number of words. -/
theorem exists_eq_toNat_iff (wraps : Wraps size ofInt toNat) (n : Int) :
    (∃ word, n = toNat word) ↔ 0 ≤ n ∧ n < size := by
  constructor
  · rintro ⟨word, rfl⟩
    exact ⟨Int.natCast_nonneg _, wraps.toNat_lt word⟩
  · rintro ⟨hlow, hhigh⟩
    exact ⟨ofInt n, by rw [wraps.toNat_ofInt, Int.emod_eq_of_lt hlow hhigh]⟩

end Wraps

/-! ## Computations in stages -/

variable {Failure α β : Type}

/-- Two stages give what the second gives on what the first one gave. -/
theorem bind_eq_ok_iff {first : Except Failure α} {next : α → Except Failure β} {b : β} :
    first >>= next = .ok b ↔ ∃ a, first = .ok a ∧ next a = .ok b := by
  cases first with
  | error failure => simp [bind, Except.bind]
  | ok a => simp [bind, Except.bind]

/-- What is made of a result needs a result to be made of. -/
theorem map_eq_ok_iff {first : Except Failure α} {f : α → β} {b : β} :
    first.map f = .ok b ↔ ∃ a, first = .ok a ∧ f a = b := by
  cases first with
  | error failure => simp [Except.map]
  | ok a => simp [Except.map]

/-- What is made of a result fails only where there is none, for the same reason. -/
theorem map_eq_error_iff {first : Except Failure α} {f : α → β} {failure : Failure} :
    first.map f = .error failure ↔ first = .error failure := by
  cases first with
  | error failure => simp [Except.map]
  | ok a => simp [Except.map]

end EventScript
