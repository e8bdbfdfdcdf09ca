import C0Stack.Screen.Style

/-!
# Screens

A screen is a grid of cells. What is drawn on it is given cell by cell, as a function of the column and the row, and each thing
drawn is laid over what was there.
-/

namespace C0Stack

/-- What a terminal draws as one: a character and the marks that join it. -/
structure Grapheme where
  symbol : Char
  marks : List Char
deriving DecidableEq, Repr, Inhabited

namespace Grapheme

/-- A character without marks. -/
def ofChar (c : Char) : Grapheme := ⟨c, []⟩

/-- What an empty cell shows. -/
def blank : Grapheme := ofChar ' '

/-- All characters of it, in the order of the text. -/
def chars (g : Grapheme) : List Char := g.symbol :: g.marks

end Grapheme

/-- A cell of the screen. -/
structure Cell extends Grapheme where
  style : Style
deriving DecidableEq, Repr, Inhabited

namespace Cell

/-- The cell on which nothing was drawn. -/
def blank : Cell := ⟨.blank, .plain⟩

/-- The cell with other contents, in the given style. -/
def draw (c : Cell) (g : Grapheme) (style : Style) : Cell := ⟨g, c.style.patch style⟩

/-- The cell with its contents in the given style. -/
def paint (c : Cell) (style : Style) : Cell := { c with style := c.style.patch style }

end Cell

/-- A rectangle of cells: its leftmost column and its topmost row, its width and its height. -/
structure Area where
  x : Nat
  y : Nat
  width : Nat
  height : Nat
deriving DecidableEq, Repr, Inhabited

namespace Area

/-- The cell lies in the rectangle. -/
def contains (a : Area) (x y : Nat) : Bool := a.x ≤ x && x < a.x + a.width && a.y ≤ y && y < a.y + a.height

/-- The rectangle less one cell on each side. -/
def inner (a : Area) : Area := ⟨a.x + 1, a.y + 1, a.width - 2, a.height - 2⟩

end Area

/-- A grid of cells. -/
structure Screen where
  width : Nat
  height : Nat
  cell : Nat → Nat → Cell

namespace Screen

/-- A screen on which nothing was drawn. -/
def blank (width height : Nat) : Screen := ⟨width, height, fun _ _ => .blank⟩

/-- The rectangle of the whole screen. -/
def area (s : Screen) : Area := ⟨0, 0, s.width, s.height⟩

/-- The screen with every cell of the rectangle changed. -/
def update (s : Screen) (a : Area) (f : Nat → Nat → Cell → Cell) : Screen :=
  { s with cell := fun x y => if a.contains x y then f x y (s.cell x y) else s.cell x y }

/-- The screen with the rectangle in the given style. -/
def paint (s : Screen) (a : Area) (style : Style) : Screen := s.update a fun _ _ c => c.paint style

/-- The cells of a row, from left to right. -/
def row (s : Screen) (y : Nat) : List Cell := (List.range s.width).map fun x => s.cell x y

/-- The rows, from top to bottom. -/
def rows (s : Screen) : List (List Cell) := (List.range s.height).map s.row

end Screen

end C0Stack
