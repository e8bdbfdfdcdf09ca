import C0Stack.Screen.Writing

/-!
# Drawing on a grid

A toolkit that draws cell by cell (`Toolkit.grid`). It is meant for texts whose characters are drawn one by one, in one column or in two,
and for the marks that join them; of the other ways in which characters are drawn together it knows nothing.
-/

namespace C0Stack

namespace Area

/-- The left part of the rectangle, of three fifths of its width to the nearest column, and the rest. -/
def splitColumns (a : Area) : Area × Area :=
  let left := (6 * a.width + 5) / 10
  ({ a with width := left }, { a with x := a.x + left, width := a.width - left })

/-- All rows of the rectangle but the last, and the last. -/
def splitLastRow (a : Area) : Area × Area :=
  let last := min a.height 1
  ({ a with height := a.height - last }, { a with y := a.y + (a.height - last), height := last })

/-- The symbol of the border at a cell of the rectangle. Where a narrow rectangle has two of them on one cell, a corner goes before a
side, and the top left corner before the others. -/
def borderSymbol (a : Area) (x y : Nat) : Option Char :=
  let left := x == a.x
  let right := x + 1 == a.x + a.width
  let top := y == a.y
  let bottom := y + 1 == a.y + a.height
  if left && top then some '┌'
  else if left && bottom then some '└'
  else if right && top then some '┐'
  else if right && bottom then some '┘'
  else if top || bottom then some '─'
  else if left || right then some '│'
  else none

end Area

namespace Screen

/-- Draws the border. -/
def drawBorder (s : Screen) (a : Area) (style : Style) : Screen :=
  s.update a fun x y c =>
    match a.borderSymbol x y with
    | some symbol => c.draw (.ofChar symbol) style
    | none => c

/-- Draws the border and writes the title on its top row, between the corners. -/
def drawFrame (s : Screen) (a : Area) (frame : TextFrame) : Screen :=
  (s.drawBorder a frame.style).writeLines ⟨a.x + 1, a.y, a.width - 2, min a.height 1⟩ .left [[.ofString frame.title .plain]]

/-- Draws the paragraph: its style, then its frame, then its lines. -/
def drawParagraph (s : Screen) (a : Area) (p : Paragraph) : Screen :=
  match p.frame with
  | some frame => ((s.paint a p.style).drawFrame a frame).writeLines a.inner p.alignment p.lines
  | none => (s.paint a p.style).writeLines a p.alignment p.lines

end Screen

/-- The toolkit that draws cell by cell. -/
def Toolkit.grid : Toolkit := ⟨Area.splitLastRow, Area.splitColumns, Screen.drawParagraph⟩

end C0Stack
