import C0Stack.Screen.Grid
import C0Stack.Viewer.Theme

/-!
# The status bar

At the left whether the text compiles, where the cursor is, and a message; at the right the keys.
-/

namespace C0Stack.StatusBar

/-- The style of the whole bar. -/
def barStyle : Style := .ofBg Theme.currentLine

/-- The left part of the bar. -/
def left (message : String) (cursor total : Nat) (failed : Bool) : TextLine :=
  [.ofString (if failed then " ERROR " else " OK ")
     ((Style.ofBg (if failed then Theme.error else Theme.success)).withFg .black).inBold,
   .ofString (" Line " ++ toString cursor ++ "/" ++ toString (max total 1) ++ " ")
     ((Style.ofBg Theme.primary).withFg .black).inBold,
   .ofString " | " (barStyle.withFg Theme.faint),
   .ofString (" " ++ message ++ " ") (barStyle.withFg (if failed then Theme.error else Theme.text))]

/-- A key and what it does. -/
def hint (key action : String) : TextLine :=
  [.ofString key ((Style.ofBg Theme.faint).withFg .black), .ofString action (barStyle.withFg Theme.text)]

/-- What stands between two keys. -/
def separator : TextLine := [.ofString "│" (barStyle.withFg Theme.faint), .ofString " " (barStyle.withFg Theme.text)]

/-- The right part of the bar. -/
def right : TextLine :=
  hint " ↑/↓ " " move " ++ separator ++ hint " ⇥ " " pane " ++ separator ++ hint " e " " error " ++ separator ++ hint "q" " quit "

/-- A part of the bar as a paragraph. -/
def paragraph (line : TextLine) (alignment : Alignment) : Paragraph where
  lines := [line]
  style := barStyle
  alignment := alignment

/-- Draws the bar. -/
def draw (s : Screen) (a : Area) (message : String) (cursor total : Nat) (failed : Bool) (T : Toolkit := .grid) : Screen :=
  let (leftArea, rightArea) := T.splitColumns a
  let screen := T.render s leftArea (paragraph (left message cursor total failed) .left)
  T.render screen rightArea (paragraph right .right)

end C0Stack.StatusBar
