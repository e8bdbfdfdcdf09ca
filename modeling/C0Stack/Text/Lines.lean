/-!
# Lines of a text

The lines of a text as a reader sees them: each ends before its line feed, a carriage return just before the line feed is no
part of it, and a text that ends in a line feed has no empty line after it.
-/

namespace C0Stack.Text

/-- Puts the character in front of the first of the lines. -/
def consFirst (c : Char) : List (List Char) → List (List Char)
  | [] => [[c]]
  | line :: rest => (c :: line) :: rest

/-- The lines of the characters, without their line ends. -/
def splitLines : List Char → List (List Char)
  | [] => []
  | '\n' :: rest => [] :: splitLines rest
  | '\r' :: '\n' :: rest => [] :: splitLines rest
  | c :: rest => consFirst c (splitLines rest)

/-- The lines of the text, without their line ends. -/
def lines (text : String) : List String := (splitLines text.toList).map String.ofList

/-- The number of lines of the text. An empty text counts as one line. -/
def lineCount (text : String) : Nat := max (lines text).length 1

end C0Stack.Text
