import C0Stack.Diagnostic
import C0Stack.Viewer.ListingPane
import C0Stack.Viewer.SourcePane
import C0Stack.Viewer.StatusBar

/-!
# The viewer

A text beside the program it compiles to, or with the fault for which it is refused. Keys move a cursor over the lines of the text;
the instructions of the cursor's line are marked in the listing, which follows the cursor when it moves.
-/

namespace C0Stack

/-- A pane of the viewer. -/
inductive Pane where
  | source
  | listing
deriving DecidableEq, Repr, Inhabited

/-- The other pane. -/
def Pane.other : Pane → Pane
  | source => listing
  | listing => source

/-- A key that was pressed. -/
inductive Key where
  | char (c : Char)
  | up
  | down
  | home
  | last
  | tab
  | backTab
  | escape
  | other
deriving DecidableEq, Repr, Inhabited

/-- The key of the given name: a word for a key without a character, and the character itself for any other. -/
def Key.ofName (name : String) : Key :=
  match name with
  | "up" => up
  | "down" => down
  | "home" => home
  | "end" => last
  | "tab" => tab
  | "backtab" => backTab
  | "esc" => escape
  | name =>
    match name.toList with
    | [c] => char c
    | _ => other

/-- The state of the viewer. The cursor is a line, counted from one; the scrolls are the first line and the first instruction
shown, counted from zero. -/
structure Viewer where
  source : String
  program : Program
  error : Option Diagnostic
  focus : Pane
  cursor : Nat
  sourceScroll : Nat
  listingScroll : Nat
  follow : Bool
  quit : Bool
  status : String
deriving DecidableEq, Repr, Inhabited

namespace Viewer

/-- The viewer of a text and the result of compiling it. -/
def ofResult (source : String) (result : Except Diagnostic Program) : Viewer :=
  match result with
  | .ok program =>
    ⟨source, program, none, .source, 1, 0, 0, true, false, "Compiled " ++ toString program.size ++ " instructions"⟩
  | .error error => ⟨source, .empty, some error, .source, error.pos.line, 0, 0, true, false, error.message⟩

/-- The number of lines of the text. -/
def lineCount (v : Viewer) : Nat := Text.lineCount v.source

/-- The addresses of the instructions of the cursor's line. -/
def marked (v : Viewer) : List Nat := v.program.addressesOn v.cursor

/-- What the status bar says of a line with `count` instructions. -/
def lineStatus (line count : Nat) : String :=
  "Line " ++ toString line ++ ": " ++ toString count ++ (if count = 1 then " instruction" else " instructions")

/-- Moves the cursor to the line, or to the line of the text nearest to it. -/
def moveTo (v : Viewer) (line : Nat) : Viewer :=
  let moved := { v with cursor := min (max line 1) v.lineCount, follow := true }
  match v.error with
  | none => { moved with status := lineStatus moved.cursor moved.marked.length }
  | some _ => moved

/-- Moves the cursor to the fault, if there is one. -/
def showError (v : Viewer) : Viewer :=
  match v.error with
  | some error => { v.moveTo error.pos.line with status := error.message }
  | none => { v with status := "No compile error" }

/-- Handles a key. -/
def press (v : Viewer) : Key → Viewer
  | .char 'q' | .char 'Q' | .escape => { v with quit := true }
  | .tab | .backTab => { v with focus := v.focus.other }
  | .char 'e' => v.showError
  | .up =>
    match v.focus with
    | .source => v.moveTo (v.cursor - 1)
    | .listing => { v with listingScroll := v.listingScroll - 1 }
  | .down =>
    match v.focus with
    | .source => v.moveTo (v.cursor + 1)
    | .listing => { v with listingScroll := v.listingScroll + 1 }
  | .home => v.moveTo 1
  | .last => v.moveTo v.lineCount
  | .char _ | .other => v

/-- Draws the viewer on a blank screen of the given size: the panes side by side, and the status bar on the last row. Returns the
screen, and the viewer with the scrolls it was drawn with. -/
def draw (v : Viewer) (width height : Nat) (T : Toolkit := .grid) : Screen × Viewer :=
  let screen := Screen.blank width height
  let (panes, bar) := T.splitLastRow screen.area
  let (left, right) := T.splitColumns panes
  let (screen, sourceScroll) :=
    SourcePane.draw screen left v.source v.cursor (v.error.map fun e => e.pos.line) (v.focus == .source) v.sourceScroll T
  let (screen, listingScroll) :=
    ListingPane.draw screen right v.program v.marked (v.focus == .listing) v.follow v.listingScroll T
  let screen := StatusBar.draw screen bar v.status v.cursor v.lineCount v.error.isSome T
  (screen, { v with sourceScroll, listingScroll, follow := false })

end Viewer

end C0Stack
