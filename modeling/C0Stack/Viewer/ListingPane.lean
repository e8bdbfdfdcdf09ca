import C0Stack.Program
import C0Stack.Viewer.SourcePane

/-!
# The listing pane

The instructions of the program with their addresses and places, those of the cursor's line marked.
-/

namespace C0Stack.ListingPane

/-- The style of an operation. -/
def operationStyle : Operation → Style
  | .jmp | .jz | .call | .ret => (Style.ofFg Theme.jump).inBold
  | .lod | .sto | .lodg | .stog => .ofFg Theme.typeName
  | .lit => .ofFg Theme.number
  | _ => .ofFg Theme.text

/-- The first instruction shown. Following the cursor, it goes a quarter of the pane above the first marked instruction; and no row
stays empty while instructions are hidden. -/
def scrollTo (visible total : Nat) (marked : List Nat) (follow : Bool) (scroll : Nat) : Nat :=
  let wanted :=
    match follow, marked with
    | true, first :: _ => first - visible / 4
    | _, _ => scroll
  if visible < total then min wanted (total - visible) else 0

/-- A row of the pane. -/
def row (marked : List Nat) (address : Nat) (line : CodeLine) : TextLine :=
  let isMarked := marked.contains address
  let mark := if isMarked then "▶" else " "
  let operand := (line.instruction.operand.map toString).getD ""
  let spans : TextLine :=
    [.ofString (mark ++ Text.alignRight 4 (toString address) ++ " ") (.ofFg (if isMarked then Theme.secondary else Theme.faint)),
     .ofString (Text.alignLeft 5 line.instruction.op.mnemonic) (operationStyle line.instruction.op),
     .ofString (Text.alignRight 6 operand) (.ofFg Theme.text),
     .ofString ("   " ++ toString line.pos.line ++ ":" ++ toString line.pos.column) (.ofFg Theme.faint)]
  if isMarked then spans.map fun span => { span with style := span.style.withBg Theme.currentLine } else spans

/-- The rows of the pane from the instruction `scroll` on. -/
def rows (program : Program) (marked : List Nat) (scroll visible : Nat) : List TextLine :=
  (program.lines.toList.zipIdx.drop scroll |>.take visible).map fun (line, address) => row marked address line

/-- The frame of the pane. -/
def frame (program : Program) (focused : Bool) : TextFrame :=
  ⟨" Instructions (" ++ toString program.size ++ ") ", Theme.border focused⟩

/-- The pane without instructions. -/
def emptyParagraph (program : Program) (focused : Bool) : Paragraph where
  lines := [[.ofString "(no instructions)" .plain]]
  frame := some (frame program focused)
  style := .ofFg Theme.faint

/-- The pane as a paragraph. -/
def paragraph (program : Program) (marked : List Nat) (focused : Bool) (scroll visible : Nat) : Paragraph where
  lines := rows program marked scroll visible
  frame := some (frame program focused)

/-- Draws the pane, and returns the screen and the scroll it was drawn with. -/
def draw (s : Screen) (a : Area) (program : Program) (marked : List Nat) (focused follow : Bool) (scroll : Nat)
    (T : Toolkit := .grid) : Screen × Nat :=
  if program.size = 0 then (T.render s a (emptyParagraph program focused), scroll)
  else
    let visible := SourcePane.visibleRows a.height
    let scroll := scrollTo visible program.size marked follow scroll
    (T.render s a (paragraph program marked focused scroll visible), scroll)

end C0Stack.ListingPane
