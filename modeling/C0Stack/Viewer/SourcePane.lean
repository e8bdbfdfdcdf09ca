import C0Stack.Screen.Grid
import C0Stack.Text.Lines
import C0Stack.Text.Padded
import C0Stack.Viewer.Highlight

/-!
# The source pane

The lines of the source text with their numbers, the cursor's line and the line of a fault marked.
-/

namespace C0Stack.SourcePane

/-- The number of rows for lines in a pane of the given height. -/
def visibleRows (height : Nat) : Nat := max (height - 2) 1

/-- The first line shown, counted from zero, so that the line `cursor`, counted from one, is visible: the scroll changes only as far
as it must. -/
def scrollTo (visible cursor scroll : Nat) : Nat :=
  if cursor - 1 < scroll then cursor - 1
  else if scroll + visible ≤ cursor - 1 then cursor - 1 + 1 - visible
  else scroll

/-- The style of a line number. -/
def numberStyle (isError isCursor : Bool) : Style :=
  if isError then (Style.ofFg Theme.error).inBold
  else if isCursor then (Style.ofFg Theme.secondary).inBold
  else .ofFg Theme.faint

/-- The style of a part of a line: the line of the fault hides its own. -/
def contentStyle (isError isCursor : Bool) (style : Style) : Style :=
  if isError then ((Style.ofBg Theme.error).withFg .white).inBold
  else if isCursor then style.patch (.ofBg Theme.currentLine)
  else style

/-- A row of the pane: the number of the line and its text. -/
def row (cursor : Nat) (errorLine : Option Nat) (number : Nat) (text : String) : TextLine :=
  let isError := errorLine == some number
  let isCursor := number == cursor
  .ofString (Text.alignRight 4 (toString number) ++ " ") (numberStyle isError isCursor) ::
    (Highlight.line text).map fun span => { span with style := contentStyle isError isCursor span.style }

/-- The rows of the pane from the line `scroll` on, counted from zero. -/
def rows (source : String) (cursor : Nat) (errorLine : Option Nat) (scroll visible : Nat) : List TextLine :=
  (((Text.lines source).zipIdx 1).drop scroll |>.take visible).map fun (text, number) => row cursor errorLine number text

/-- The pane as a paragraph. -/
def paragraph (source : String) (cursor : Nat) (errorLine : Option Nat) (focused : Bool) (scroll visible : Nat) : Paragraph where
  lines := rows source cursor errorLine scroll visible
  frame := some ⟨" Source Code ", Theme.border focused⟩

/-- Draws the pane, and returns the screen and the scroll it was drawn with. -/
def draw (s : Screen) (a : Area) (source : String) (cursor : Nat) (errorLine : Option Nat) (focused : Bool) (scroll : Nat)
    (T : Toolkit := .grid) : Screen × Nat :=
  let visible := visibleRows a.height
  let scroll := scrollTo visible cursor scroll
  (T.render s a (paragraph source cursor errorLine focused scroll visible), scroll)

end C0Stack.SourcePane
