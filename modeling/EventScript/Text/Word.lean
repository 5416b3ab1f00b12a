/-!
# Words

The words of a line are its longest runs of characters that are not blank. They
are found by cutting at every blank and leaving out the empty pieces, so blanks
at either end and several blanks in a row make no difference. Blank are the
characters with the Unicode property `White_Space`, which has far more members than
the four blanks of ASCII.
-/

set_option autoImplicit false

namespace EventScript.Text

/-- The code points with the Unicode property `White_Space`, as closed ranges in
ascending order. -/
def blankRanges : List (Nat × Nat) :=
  [(0x0009, 0x000d), (0x0020, 0x0020), (0x0085, 0x0085), (0x00a0, 0x00a0),
    (0x1680, 0x1680), (0x2000, 0x200a), (0x2028, 0x2029), (0x202f, 0x202f),
    (0x205f, 0x205f), (0x3000, 0x3000)]

/-- Whether a character separates words. -/
def isBlank (c : Char) : Bool :=
  blankRanges.any fun (low, high) => low ≤ c.toNat && c.toNat ≤ high

/-- The pieces between blanks, empty ones included: always one more than there are
blanks. -/
def pieces : List Char → List (List Char)
  | [] => [[]]
  | c :: rest =>
    if isBlank c then [] :: pieces rest
    else (pieces rest).modifyHead (c :: ·)

/-- The words of a sequence of characters, in order. -/
def wordChars (cs : List Char) : List (List Char) :=
  (pieces cs).filter fun piece => !piece.isEmpty

/-- A sequence of characters has one more piece than it has blanks. -/
theorem length_pieces (cs : List Char) :
    (pieces cs).length = cs.countP isBlank + 1 := by
  induction cs with
  | nil => rfl
  | cons c rest ih => by_cases h : isBlank c = true <;> simp [pieces, h, ih]

/-- There is always a piece, if only an empty one. -/
theorem pieces_ne_nil (cs : List Char) : pieces cs ≠ [] := by
  intro h
  have := length_pieces cs
  simp [h] at this

end EventScript.Text
