import C0Stack.Screen.Basic

/-!
# Paragraphs

What the program draws is made of paragraphs: lines of text, with or without a frame around them. It lays them out and draws them by
a toolkit, of which it knows only the three operations of `Toolkit`: how characters come to stand in cells is the toolkit's affair.
-/

namespace C0Stack

/-- Characters in one style. -/
structure Span where
  chars : List Char
  style : Style
deriving DecidableEq, Repr, Inhabited

/-- A span with the characters of a text. -/
def Span.ofString (text : String) (style : Style) : Span := ⟨text.toList, style⟩

/-- A line of text. -/
abbrev TextLine := List Span

/-- Which edge of the rectangle a line ends at. -/
inductive Alignment where
  | left
  | right
deriving DecidableEq, Repr, Inhabited

/-- A border with a title. -/
structure TextFrame where
  title : String
  style : Style
deriving DecidableEq, Repr, Inhabited

/-- Lines of text in a rectangle, within a frame if there is one. The style is that of the whole rectangle. -/
structure Paragraph where
  lines : List TextLine
  frame : Option TextFrame := none
  style : Style := .plain
  alignment : Alignment := .left
deriving DecidableEq, Repr, Inhabited

/-- The operations that the program draws with. -/
structure Toolkit where
  /-- All rows of the rectangle but the last, and the last. -/
  splitLastRow : Area → Area × Area
  /-- The left part of the rectangle, of three fifths of its width, and the rest. -/
  splitColumns : Area → Area × Area
  /-- Draws the paragraph in the rectangle. -/
  render : Screen → Area → Paragraph → Screen

end C0Stack
