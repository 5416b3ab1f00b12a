/-!
# Lines

A text is a sequence of lines, each ended by a line feed or by a carriage return
with a line feed; the last one may stand without its end. A carriage return that
no line feed follows belongs to its line.
-/

set_option autoImplicit false

namespace EventScript.Text

/-- The lines of a sequence of characters, without the characters that end them. -/
def lineChars : List Char → List (List Char)
  | [] => []
  | '\n' :: rest => [] :: lineChars rest
  | '\r' :: '\n' :: rest => [] :: lineChars rest
  | c :: rest =>
    match lineChars rest with
    | [] => [[c]]
    | line :: lines => (c :: line) :: lines

/-- The lines of a text: none for the empty text, and none after a final line end. -/
def lines (text : String) : List String :=
  (lineChars text.toList).map String.ofList

/-- The text of which these are the lines, every one ended by a line feed. -/
def unlines (lines : List String) : String :=
  String.join (lines.map (· ++ "\n"))

/-- No characters have no lines. -/
@[simp]
theorem lineChars_nil : lineChars [] = [] := rfl

/-- A line feed alone is the end of an empty line. -/
@[simp]
theorem lineChars_lineFeed (rest : List Char) :
    lineChars ('\n' :: rest) = [] :: lineChars rest := by
  simp [lineChars]

/-- Neither character of a line end is part of a line that it ends. -/
@[simp]
theorem lineChars_carriageReturn_lineFeed (rest : List Char) :
    lineChars ('\r' :: '\n' :: rest) = [] :: lineChars rest := by
  simp [lineChars]

end EventScript.Text
