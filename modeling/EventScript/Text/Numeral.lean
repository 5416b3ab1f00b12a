/-!
# Numerals

Integers are written in decimal with a minus sign before negative ones, and words
of memory also in hexadecimal behind `0x`, filled up with zeros to a fixed width.
They are read in either radix: one optional minus sign, an optional `0x` or `0X`,
then digits, of which there may be any number. A magnitude above
`maxMagnitude` is refused.
-/

set_option autoImplicit false

namespace EventScript.Numeral

/-- The greatest magnitude that is read, which is also the greatest signed 64-bit
integer. -/
def maxMagnitude : Nat := 0x7fffffffffffffff

/-- The value of a digit in a radix of at most sixteen; letters count in either
case. -/
def digit? (radix : Nat) (c : Char) : Option Nat :=
  let value : Option Nat :=
    if '0' ≤ c ∧ c ≤ '9' then some (c.toNat - '0'.toNat)
    else if 'a' ≤ c ∧ c ≤ 'f' then some (c.toNat - 'a'.toNat + 10)
    else if 'A' ≤ c ∧ c ≤ 'F' then some (c.toNat - 'A'.toNat + 10)
    else none
  value.filter (· < radix)

/-- The value of digits that follow others of the value `high`. -/
def digitsAfter? (radix high : Nat) : List Char → Option Nat
  | [] => some high
  | c :: rest => (digit? radix c).bind fun d => digitsAfter? radix (high * radix + d) rest

/-- The value of one or more digits. -/
def digits? (radix : Nat) (cs : List Char) : Option Nat :=
  if cs.isEmpty then none else digitsAfter? radix 0 cs

/-- The value of a numeral without a sign, in the radix that its first characters
announce. -/
def magnitude? : List Char → Option Nat
  | '0' :: 'x' :: rest => digits? 16 rest
  | '0' :: 'X' :: rest => digits? 16 rest
  | cs => digits? 10 cs

/-- The value of a numeral of any length. -/
def value? : List Char → Option Int
  | '-' :: rest => (magnitude? rest).map fun (n : Nat) => -(n : Int)
  | cs => (magnitude? cs).map fun (n : Nat) => (n : Int)

/-- Reads a numeral whose magnitude is at most `maxMagnitude`. -/
def read? (word : String) : Option Int :=
  (value? word.toList).filter fun n => n.natAbs ≤ maxMagnitude

/-- Puts copies of `filler` in front of a text until it has `width` characters. -/
def padLeft (filler : Char) (width : Nat) (cs : List Char) : List Char :=
  List.replicate (width - cs.length) filler ++ cs

/-- Writes an integer in decimal. -/
def ofInt (n : Int) : String := n.repr

/-- Writes a natural number in decimal. -/
def ofNat (n : Nat) : String := n.repr

/-- Writes a natural number in decimal, with zeros in front up to `width` digits. -/
def zeroPadded (width n : Nat) : String :=
  String.ofList (padLeft '0' width (Nat.toDigits 10 n))

/-- Writes a natural number in decimal, with spaces in front up to `width`
characters. -/
def rightAligned (width n : Nat) : String :=
  String.ofList (padLeft ' ' width (Nat.toDigits 10 n))

/-- Writes a natural number in lower-case hexadecimal behind `0x`, with at least
`width` digits. -/
def hex (width n : Nat) : String :=
  String.ofList ('0' :: 'x' :: padLeft '0' width (Nat.toDigits 16 n))

end EventScript.Numeral
