import EventScript.Text.Numeral

/-!
# JSON

The documents that the library writes: numbers are whole, and an object keeps its
fields in the order in which they were given.

A document is written over several lines: every item and every field has a line of
its own, two spaces further in than what holds it. An array or object without
content stays on one line. In a string the quotation mark, the backslash and the
control characters of ASCII are escaped.
-/

set_option autoImplicit false

namespace EventScript

/-- A JSON document. -/
inductive Json where
  | null
  | number (value : Int)
  | string (value : String)
  | array (items : List Json)
  | object (fields : List (String × Json))

namespace Json

instance : Inhabited Json := ⟨null⟩

/-- The document of a natural number. -/
def ofNat (n : Nat) : Json := number n

/-- The document of a list of texts. -/
def ofStrings (texts : List String) : Json := array (texts.map string)

/-! ## Indented text -/

/-- How a character is written inside a string. -/
def escaped (c : Char) : List Char :=
  if c = '"' then ['\\', '"']
  else if c = '\\' then ['\\', '\\']
  else if c = '\x08' then ['\\', 'b']
  else if c = '\x0c' then ['\\', 'f']
  else if c = '\n' then ['\\', 'n']
  else if c = '\r' then ['\\', 'r']
  else if c = '\t' then ['\\', 't']
  else if c.toNat < 0x20 then
    '\\' :: 'u' :: Numeral.padLeft '0' 4 (Nat.toDigits 16 c.toNat)
  else [c]

/-- A string between quotation marks. -/
def quoted (text : String) : String :=
  "\"" ++ String.ofList (text.toList.flatMap escaped) ++ "\""

/-- The end of a line and the indentation of the next one. -/
def newLine (depth : Nat) : String :=
  String.ofList ('\n' :: List.replicate (2 * depth) ' ')

mutual

/-- A document whose first line is indented already. -/
def prettyAt (depth : Nat) : Json → String
  | .null => "null"
  | .number value => Numeral.ofInt value
  | .string value => quoted value
  | .array [] => "[]"
  | .array (item :: items) =>
    "[" ++ newLine (depth + 1) ++ prettyAt (depth + 1) item
      ++ prettyItems (depth + 1) items ++ newLine depth ++ "]"
  | .object [] => "\x7b\x7d"
  | .object ((name, value) :: fields) =>
    "\x7b" ++ newLine (depth + 1) ++ quoted name ++ ": " ++ prettyAt (depth + 1) value
      ++ prettyFields (depth + 1) fields ++ newLine depth ++ "\x7d"

/-- The items of an array after its first. -/
def prettyItems (depth : Nat) : List Json → String
  | [] => ""
  | item :: items =>
    "," ++ newLine depth ++ prettyAt depth item ++ prettyItems depth items

/-- The fields of an object after its first. -/
def prettyFields (depth : Nat) : List (String × Json) → String
  | [] => ""
  | (name, value) :: fields =>
    "," ++ newLine depth ++ quoted name ++ ": " ++ prettyAt depth value
      ++ prettyFields depth fields

end

/-- A document over several lines, without an end of the last. -/
def pretty (document : Json) : String := prettyAt 0 document

/-- A character that needs no escape is written as itself. -/
theorem escaped_of_plain {c : Char} (quote : c ≠ '"') (backslash : c ≠ '\\')
    (printable : 0x20 ≤ c.toNat) : escaped c = [c] := by
  have ne {d : Char} (h : d.toNat < 0x20) : c ≠ d := by
    rintro rfl
    omega
  rw [escaped, if_neg quote, if_neg backslash, if_neg (ne (by decide)), if_neg (ne (by decide)),
    if_neg (ne (by decide)), if_neg (ne (by decide)), if_neg (ne (by decide)),
    if_neg (by omega)]

end Json

end EventScript
