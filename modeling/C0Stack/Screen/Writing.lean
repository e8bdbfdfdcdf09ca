import C0Stack.Screen.Paragraph
import C0Stack.Text.Columns
import C0Stack.Text.Lines

/-!
# Writing on a grid

A line of text is written character by character, each with the marks behind it, and ends before the first that has no room; only a
character too wide for any line of that width is left out, and so is one without a column of its own that has nothing to join. A wide
character stands in the first of its two cells and covers the second, which shows nothing.
-/

namespace C0Stack

/-- What stands in one cell of a line, with its style. -/
abbrev Glyph := Grapheme × Style

/-- The characters, each with the marks that join it. -/
def Text.graphemes : List Char → List Grapheme
  | [] => []
  | c :: rest =>
    match graphemes rest with
    | [] => [.ofChar c]
    | g :: more => if joins c g.symbol then ⟨c, g.chars⟩ :: more else .ofChar c :: g :: more

namespace TextLine

/-- What is to be written of the line. Line ends within a span are left out. -/
def glyphs (line : TextLine) : List Glyph :=
  line.flatMap fun span => (Text.graphemes (Text.splitLines span.chars).flatten).map fun g => (g, span.style)

/-- Those that have room on `width` columns, of which `used` are taken. -/
def fit (width used : Nat) : List Glyph → List Glyph
  | [] => []
  | (g, style) :: rest =>
    let columns := Text.columns g.symbol
    if width < columns then fit width used rest
    else if width < used + columns then []
    else (g, style) :: fit width (used + columns) rest

/-- What a line puts in a column: nothing, a character, or what a wide character covers. -/
inductive Column where
  | untouched
  | glyph (g : Grapheme) (style : Style)
  | covered
deriving DecidableEq, Repr, Inhabited

/-- The columns that a character fills. -/
def Column.fill (g : Grapheme) (style : Style) : Nat → List Column
  | 0 => []
  | more + 1 => .glyph g style :: List.replicate more .covered

/-- The columns that the characters fill. -/
def spread (glyphs : List Glyph) : List Column :=
  glyphs.flatMap fun (g, style) => Column.fill g style (Text.columns g.symbol)

/-- The columns of a line that is written on `width` columns. -/
def layout (alignment : Alignment) (width : Nat) (line : TextLine) : List Column :=
  let columns := spread (fit width 0 line.glyphs)
  match alignment with
  | .left => columns
  | .right => List.replicate (width - columns.length) .untouched ++ columns

end TextLine

/-- The cell with what a line puts there. -/
def Cell.write (c : Cell) : TextLine.Column → Cell
  | .untouched => c
  | .glyph g style => c.draw g style
  | .covered => .blank

/-- Writes each line on a row of the rectangle. -/
def Screen.writeLines (s : Screen) (a : Area) (alignment : Alignment) (lines : List TextLine) : Screen :=
  let columns := lines.map (TextLine.layout alignment a.width)
  s.update a fun x y c =>
    match (columns[y - a.y]?).bind (·[x - a.x]?) with
    | some column => c.write column
    | none => c

end C0Stack
