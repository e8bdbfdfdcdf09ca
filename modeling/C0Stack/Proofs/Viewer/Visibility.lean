import C0Stack.Proofs.Listing
import C0Stack.Proofs.Viewer.Cursor
import C0Stack.Proofs.Viewer.Grid

/-!
# What the cursor points at is on the screen

The scrolls survive keys, changes of focus and screens of other sizes, and the keys do not keep them in bounds. A draw does: whatever they
were, the cursor's line is on the screen afterwards, no row of the listing stays empty while instructions are hidden above, and if the
cursor was moved the first instruction of its line is shown as well (`draw_in_view`).
-/

namespace C0Stack

/-! ## The source pane -/

namespace SourcePane

/-- The row for a line of the text, counted from zero, if there is such a line: its number in digits, behind spaces where it has fewer than
four, and then a space and the line. -/
def shown (source : String) (n : Nat) : List Char :=
  ((Text.lines source)[n]?.map fun line =>
    List.replicate (4 - (Nat.toDigits 10 (n + 1)).length) ' ' ++ Nat.toDigits 10 (n + 1) ++ ' ' :: line.toList).getD []

/-- The cursor's line is among those shown, whatever the scroll was. -/
theorem scrollTo_in_view {visible : Nat} (h : 1 ≤ visible) (cursor scroll : Nat) :
    scrollTo visible cursor scroll ≤ cursor - 1 ∧ cursor - 1 < scrollTo visible cursor scroll + visible := by
  unfold scrollTo
  split
  · omega
  · split <;> omega

/-- Row by row, the pane has the lines of the text from the scroll on. -/
theorem chars_rows (source : String) (cursor : Nat) (errorLine : Option Nat) (scroll : Nat) {visible i : Nat} (hi : i < visible) :
    TextLine.chars ((rows source cursor errorLine scroll visible).getD i []) = shown source (scroll + i) := by
  simp only [rows, shown, List.getD_eq_getElem?_getD, List.getElem?_map, List.getElem?_take_of_lt hi, List.getElem?_drop,
    List.getElem?_zipIdx]
  cases (Text.lines source)[scroll + i]? with
  | none => rfl
  | some line =>
    simp only [Option.map_some, Option.getD_some, chars_row, Nat.add_comm 1]

section

variable {T : Toolkit} {cut : Nat → TextLine → List Grapheme} {s : Screen} {a : Area} (source : String) (cursor : Nat)
  (errorLine : Option Nat) (focused : Bool) (scroll : Nat)

/-- The rows of the pane show the lines of the text from the scroll on, cut as the toolkit cuts lines. -/
theorem symbols_draw (hT : T.Lawful cut) (ha : a.FitsIn s) (hempty : s.Empty a.inner) {i : Nat} (hi : i < a.inner.height) :
    ∃ line : TextLine, line.chars = shown source ((draw s a source cursor errorLine focused scroll T).2 + i) ∧
      (draw s a source cursor errorLine focused scroll T).1.symbols a.inner i = cut a.inner.width line := by
  have hvisible : i < visibleRows a.height := Nat.lt_of_lt_of_le hi (Nat.le_max_left _ 1)
  exact ⟨_, chars_rows source cursor errorLine (scrollTo (visibleRows a.height) cursor scroll) hvisible,
    hT.render_symbols s a _ i ha rfl rfl hempty hi⟩

end

end SourcePane

/-! ## The listing pane -/

namespace Program

/-- The source line of the instruction at the address. -/
def lineOf? (p : Program) (address : Nat) : Option Nat := p.lines[address]?.map fun l => l.pos.line

/-- The instruction at the address is the first one that was emitted for the line. -/
structure IsFirstOn (p : Program) (line address : Nat) : Prop where
  on : p.lineOf? address = some line
  first : ∀ a < address, p.lineOf? a ≠ some line

/-- An address is among those of a line exactly if its place is on the line. -/
theorem contains_addressesOn {p : Program} {address : Nat} {l : CodeLine} (h : p.lines[address]? = some l) (line : Nat) :
    (p.addressesOn line).contains address = (l.pos.line == line) := by
  rw [Bool.eq_iff_iff, List.contains_iff_mem, beq_iff_eq, addressesOn, List.mem_map]
  constructor
  · rintro ⟨⟨l', address'⟩, hmem, rfl⟩
    obtain ⟨hzip, hline⟩ := List.mem_filter.1 hmem
    have hl' := List.mk_mem_zipIdx_iff_getElem?.1 hzip
    rw [Array.getElem?_toList, h] at hl'
    cases hl'
    exact beq_iff_eq.1 hline
  · intro hline
    refine ⟨(l, address), List.mem_filter.2 ⟨List.mk_mem_zipIdx_iff_getElem?.2 ?_, beq_iff_eq.2 hline⟩, rfl⟩
    rwa [Array.getElem?_toList]

/-- The first address on a line comes first among them. -/
theorem IsFirstOn.head?_addressesOn {p : Program} {line address : Nat} (h : p.IsFirstOn line address) :
    (p.addressesOn line).head? = some address := by
  obtain ⟨l, hl, hline⟩ := Option.map_eq_some_iff.1 h.on
  obtain ⟨hlt, hget⟩ := Array.getElem?_eq_some_iff.1 hl
  rw [addressesOn, List.head?_map, List.head?_filter]
  refine Option.map_eq_some_iff.2 ⟨(l, address), List.find?_eq_some_iff_getElem.2 ?_, rfl⟩
  refine ⟨beq_iff_eq.2 hline, address, by simpa using hlt, ?_, ?_⟩
  · simp [hget]
  · intro a ha
    have hother := h.first a ha
    rw [lineOf?, Array.getElem?_eq_getElem (Nat.lt_trans ha hlt)] at hother
    simpa using hother

/-- The first address on a line is one of the program. -/
theorem IsFirstOn.lt_size {p : Program} {line address : Nat} (h : p.IsFirstOn line address) : address < p.size := by
  obtain ⟨l, hl, -⟩ := Option.map_eq_some_iff.1 h.on
  exact (Array.getElem?_eq_some_iff.1 hl).1

end Program

namespace ListingPane

/-- The text of a row: a mark, if the instruction is one of the cursor's line, its address, the instruction, and its place. -/
def rowText (isMarked : Bool) (address : Nat) (line : CodeLine) : List Char :=
  let mnemonic := line.instruction.op.mnemonic.toList
  let operand := (line.instruction.operand.map (Nat.toDigits 10)).getD []
  (if isMarked then '▶' else ' ') :: (List.replicate (4 - (Nat.toDigits 10 address).length) ' ' ++ Nat.toDigits 10 address ++
    ' ' :: (mnemonic ++ List.replicate (5 - mnemonic.length) ' ' ++ (List.replicate (6 - operand.length) ' ' ++ operand) ++
    ' ' :: ' ' :: ' ' :: (Nat.toDigits 10 line.pos.line ++ ':' :: Nat.toDigits 10 line.pos.column)))

/-- The row for the instruction at the address, if there is one. -/
def shown (program : Program) (cursor address : Nat) : List Char :=
  (program.lines[address]?.map fun line => rowText (line.pos.line == cursor) address line).getD []

/-- No row stays empty while instructions are hidden above. -/
theorem scrollTo_filled (visible total : Nat) (marked : List Nat) (follow : Bool) (scroll : Nat) :
    scrollTo visible total marked follow scroll = 0 ∨ scrollTo visible total marked follow scroll + visible ≤ total := by
  by_cases h : visible < total
  · refine .inr ?_
    simp only [scrollTo, if_pos h]
    omega
  · exact .inl (if_neg h)

/-- Following the cursor, the first marked instruction is among those shown. -/
theorem scrollTo_follow {visible total first : Nat} {marked : List Nat} (hvisible : 1 ≤ visible) (hfirst : first < total)
    (hmarked : marked.head? = some first) (scroll : Nat) :
    scrollTo visible total marked true scroll ≤ first ∧ first < scrollTo visible total marked true scroll + visible := by
  obtain ⟨rest, rfl⟩ := List.head?_eq_some_iff.1 hmarked
  simp only [scrollTo]
  split <;> omega

/-- The characters of a row. -/
theorem chars_row (marked : List Nat) (address : Nat) (line : CodeLine) :
    TextLine.chars (row marked address line) = rowText (marked.contains address) address line := by
  have hoperand : ((line.instruction.operand.map toString).getD "").toList =
      (line.instruction.operand.map (Nat.toDigits 10)).getD [] := by
    cases line.instruction.operand with
    | none => rfl
    | some n => exact Text.toList_toString n
  unfold row
  generalize marked.contains address = isMarked
  cases isMarked <;>
    simp [rowText, TextLine.chars, Span.ofString, Text.toList_alignRight, Text.toList_alignLeft, hoperand]

/-- Row by row, the pane has the instructions from the scroll on. -/
theorem chars_rows (program : Program) (cursor scroll : Nat) {visible i : Nat} (hi : i < visible) :
    TextLine.chars ((rows program (program.addressesOn cursor) scroll visible).getD i []) = shown program cursor (scroll + i) := by
  simp only [rows, shown, List.getD_eq_getElem?_getD, List.getElem?_map, List.getElem?_take_of_lt hi, List.getElem?_drop,
    List.getElem?_zipIdx, Array.getElem?_toList]
  cases hline : program.lines[scroll + i]? with
  | none => rfl
  | some line =>
    simp only [Option.map_some, Option.getD_some, chars_row, Nat.zero_add, Program.contains_addressesOn hline]

/-- All characters of a row fill one cell each. -/
theorem narrow_rowText (isMarked : Bool) (address : Nat) (line : CodeLine) : ∀ c ∈ rowText isMarked address line, Text.Narrow c := by
  have hspaces : ∀ count, ∀ c ∈ List.replicate count ' ', Text.Narrow c := by
    intro count c hc
    rw [List.eq_of_mem_replicate hc]
    decide
  have hdigits : ∀ n, ∀ c ∈ Nat.toDigits 10 n, Text.Narrow c := by
    intro n c hc
    rw [← Text.toList_toString] at hc
    have := Text.toNat_of_mem_toString hc
    exact .inl (by omega)
  have hmnemonic : ∀ c ∈ line.instruction.op.mnemonic.toList, Text.Narrow c := by
    have hall : line.instruction.op.mnemonic.toList.all (fun c => decide (Text.Narrow c)) = true := by
      cases line.instruction.op <;> decide +kernel
    exact fun c hc => of_decide_eq_true (List.all_eq_true.1 hall c hc)
  have hoperand : ∀ c ∈ (line.instruction.operand.map (Nat.toDigits 10)).getD [], Text.Narrow c := by
    cases line.instruction.operand with
    | none => exact List.forall_mem_nil _
    | some n => exact hdigits n
  have hmark : Text.Narrow (if isMarked then '▶' else ' ') := by cases isMarked <;> decide
  have hspace : Text.Narrow ' ' := by decide
  have hcolon : Text.Narrow ':' := by decide
  unfold rowText
  simp only [List.forall_mem_cons, List.forall_mem_append]
  exact ⟨hmark, ⟨hspaces _, hdigits _⟩, hspace, ⟨⟨hmnemonic, hspaces _⟩, hspaces _, hoperand⟩, hspace, hspace, hspace,
    hdigits _, hcolon, hdigits _⟩

/-- So do those of the row for an address. -/
theorem narrow_shown (program : Program) (cursor address : Nat) : ∀ c ∈ shown program cursor address, Text.Narrow c := by
  unfold shown
  cases program.lines[address]? with
  | none => exact List.forall_mem_nil _
  | some line => exact narrow_rowText _ _ _

section

variable {T : Toolkit} {cut : Nat → TextLine → List Grapheme} {s : Screen} {a : Area} (program : Program) (cursor : Nat)
  (focused follow : Bool) (scroll : Nat)

/-- The pane is drawn in its rectangle. -/
theorem sameOutside_draw (hT : T.Lawful cut) (ha : a.FitsIn s) (marked : List Nat) :
    Screen.SameOutside a s (draw s a program marked focused follow scroll T).1 := by
  unfold draw
  split <;> exact hT.render_sameOutside s a _ ha

/-- Drawing the pane keeps the size of the screen. -/
theorem sameSize_draw (hT : T.Lawful cut) (s : Screen) (a : Area) (marked : List Nat) :
    Screen.SameSize s (draw s a program marked focused follow scroll T).1 := by
  unfold draw
  split <;> exact hT.render_sameSize s a _

/-- The rows of the pane show the instructions from the scroll on. -/
theorem symbols_draw (hT : T.Lawful cut) (hprogram : program.size ≠ 0) (ha : a.FitsIn s) (hempty : s.Empty a.inner) {i : Nat}
    (hi : i < a.inner.height) :
    (draw s a program (program.addressesOn cursor) focused follow scroll T).1.symbols a.inner i =
      (Text.fill a.inner.width
        (shown program cursor ((draw s a program (program.addressesOn cursor) focused follow scroll T).2 + i))).map .ofChar := by
  have hvisible : i < SourcePane.visibleRows a.height := Nat.lt_of_lt_of_le hi (Nat.le_max_left _ 1)
  have hchars := chars_rows program cursor
    (scrollTo (SourcePane.visibleRows a.height) program.size (program.addressesOn cursor) follow scroll) hvisible
  rw [draw, if_neg hprogram]
  exact hT.render_narrow ha rfl rfl hempty hi hchars (narrow_shown _ _ _)

end

end ListingPane

/-! ## The whole screen -/

/-- The status bar is drawn in its rectangle. -/
theorem StatusBar.sameOutside_draw {T : Toolkit} {cut : Nat → TextLine → List Grapheme} (hT : T.Lawful cut) {s : Screen} {a : Area}
    (ha : a.FitsIn s) (message : String) (cursor total : Nat) (failed : Bool) :
    Screen.SameOutside a s (draw s a message cursor total failed T) := by
  obtain ⟨left, hleft, hsplit⟩ := hT.splitColumns_eq a
  have hleftFits : Area.FitsIn { a with width := left } s := ⟨Nat.le_trans (Nat.add_le_add_left hleft _) ha.1, ha.2⟩
  have hrightFits : Area.FitsIn { a with x := a.x + left, width := a.width - left } s := by
    refine ⟨?_, ha.2⟩
    rw [Nat.add_assoc, Nat.add_sub_cancel' hleft]
    exact ha.1
  have hleftWithin : Area.Within { a with width := left } a := by
    intro x y h
    simp only [Area.contains_iff] at h ⊢
    omega
  have hrightWithin : Area.Within { a with x := a.x + left, width := a.width - left } a := by
    intro x y h
    simp only [Area.contains_iff] at h ⊢
    omega
  simp only [draw, hsplit]
  exact ((hT.render_sameOutside s _ _ hleftFits).mono hleftWithin).trans
    ((hT.render_sameOutside _ _ _ ((hT.render_sameSize s _ _).fitsIn hrightFits)).mono hrightWithin)

namespace Viewer

section

variable (T : Toolkit) (width height : Nat)

/-- The left one of the panes side by side, above the status bar. -/
def sourcePane : Area := (T.splitColumns (T.splitLastRow (Screen.blank width height).area).1).1

/-- The right one of the panes. -/
def listingPane : Area := (T.splitColumns (T.splitLastRow (Screen.blank width height).area).1).2

/-- The status bar below them. -/
def statusBar : Area := (T.splitLastRow (Screen.blank width height).area).2

end

/-- Where there is a row, the panes stand side by side above the last one, which has the status bar. -/
theorem panes_eq {T : Toolkit} {cut : Nat → TextLine → List Grapheme} (hT : T.Lawful cut) {height : Nat} (hheight : 0 < height)
    (width : Nat) :
    ∃ left ≤ width, sourcePane T width height = ⟨0, 0, left, height - 1⟩ ∧
      listingPane T width height = ⟨left, 0, width - left, height - 1⟩ ∧ statusBar T width height = ⟨0, height - 1, width, 1⟩ := by
  have hrows : T.splitLastRow (Screen.blank width height).area = (⟨0, 0, width, height - 1⟩, ⟨0, height - 1, width, 1⟩) := by
    rw [hT.splitLastRow_eq _ hheight]
    simp only [Screen.area, Screen.blank, Nat.zero_add]
  obtain ⟨left, hleft, hcolumns⟩ := hT.splitColumns_eq ⟨0, 0, width, height - 1⟩
  refine ⟨left, hleft, ?_, ?_, ?_⟩
  · rw [sourcePane, hrows, hcolumns]
  · rw [listingPane, hrows, hcolumns]
    simp only [Nat.zero_add]
  · rw [statusBar, hrows]

section

variable {T : Toolkit} {cut : Nat → TextLine → List Grapheme} {width height x y : Nat}

/-- All three lie on the screen. -/
theorem panes_fitIn (hT : T.Lawful cut) (hheight : 0 < height) (width : Nat) :
    (sourcePane T width height).FitsIn (.blank width height) ∧ (listingPane T width height).FitsIn (.blank width height) ∧
      (statusBar T width height).FitsIn (.blank width height) := by
  obtain ⟨left, hleft, hsource, hlisting, hbar⟩ := panes_eq hT hheight width
  rw [hsource, hlisting, hbar]
  simp only [Area.FitsIn, Screen.blank]
  omega

/-- No cell of a pane lies in the status bar. -/
theorem not_mem_statusBar (hT : T.Lawful cut) (hheight : 0 < height)
    (h : (sourcePane T width height).contains x y = true ∨ (listingPane T width height).contains x y = true) :
    (statusBar T width height).contains x y = false := by
  obtain ⟨left, hleft, hsource, hlisting, hbar⟩ := panes_eq hT hheight width
  rw [hsource, hlisting] at h
  rw [hbar]
  simp only [Area.contains_iff, Bool.eq_false_iff, Ne] at h ⊢
  omega

/-- No cell of the source pane lies in the listing pane. -/
theorem not_mem_listingPane (hT : T.Lawful cut) (hheight : 0 < height) (h : (sourcePane T width height).contains x y = true) :
    (listingPane T width height).contains x y = false := by
  obtain ⟨left, hleft, hsource, hlisting, -⟩ := panes_eq hT hheight width
  rw [hsource] at h
  rw [hlisting]
  simp only [Area.contains_iff, Bool.eq_false_iff, Ne] at h ⊢
  omega

/-- No cell of the listing pane lies in the source pane. -/
theorem not_mem_sourcePane (hT : T.Lawful cut) (hheight : 0 < height) (h : (listingPane T width height).contains x y = true) :
    (sourcePane T width height).contains x y = false := by
  rw [Bool.eq_false_iff]
  intro hsource
  rw [not_mem_listingPane hT hheight hsource] at h
  cases h

end

section

variable (v : Viewer) (T : Toolkit) (width height : Nat)

/-- The screen with the source pane, and the scroll it was drawn with. -/
def drawSource : Screen × Nat :=
  SourcePane.draw (.blank width height) (sourcePane T width height) v.source v.cursor (v.error.map fun e => e.pos.line)
    (v.focus == .source) v.sourceScroll T

/-- The screen with both panes, and the scroll that the listing was drawn with. -/
def drawListing : Screen × Nat :=
  ListingPane.draw (v.drawSource T width height).1 (listingPane T width height) v.program v.marked (v.focus == .listing) v.follow
    v.listingScroll T

/-- The viewer is drawn pane by pane, and the status bar last. -/
theorem draw_eq : v.draw width height T =
    (StatusBar.draw (v.drawListing T width height).1 (statusBar T width height) v.status v.cursor v.lineCount v.error.isSome T,
      { v with
        sourceScroll := (v.drawSource T width height).2
        listingScroll := (v.drawListing T width height).2
        follow := false }) := rfl

end

section

variable {v : Viewer} {T : Toolkit} {cut : Nat → TextLine → List Grapheme} {width height x y i : Nat}

/-- The screen with the source pane is as large as the blank one was. -/
theorem sameSize_drawSource (hT : T.Lawful cut) : Screen.SameSize (.blank width height) (v.drawSource T width height).1 :=
  hT.render_sameSize _ _ _

/-- So is the screen with both panes. -/
theorem sameSize_drawListing (hT : T.Lawful cut) : Screen.SameSize (.blank width height) (v.drawListing T width height).1 :=
  (sameSize_drawSource hT).trans (ListingPane.sameSize_draw _ _ _ _ hT _ _ _)

/-- The status bar changes no cell of the panes. -/
theorem cell_draw (hT : T.Lawful cut) (hheight : 0 < height)
    (h : (sourcePane T width height).contains x y = true ∨ (listingPane T width height).contains x y = true) :
    (v.draw width height T).1.cell x y = (v.drawListing T width height).1.cell x y := by
  have hbar := (sameSize_drawListing (v := v) hT).fitsIn (panes_fitIn hT hheight width).2.2
  rw [draw_eq]
  exact StatusBar.sameOutside_draw hT hbar _ _ _ _ x y (not_mem_statusBar hT hheight h)

/-- The listing pane changes no cell of the source pane. -/
theorem cell_drawListing (hT : T.Lawful cut) (hheight : 0 < height) (h : (sourcePane T width height).contains x y = true) :
    (v.drawListing T width height).1.cell x y = (v.drawSource T width height).1.cell x y := by
  have hlisting := (sameSize_drawSource (v := v) hT).fitsIn (panes_fitIn hT hheight width).2.1
  exact ListingPane.sameOutside_draw _ _ _ _ hT hlisting _ x y (not_mem_listingPane hT hheight h)

/-- The rows of the source pane, once all is drawn, show the lines of the text from the scroll on. -/
theorem symbols_source (hT : T.Lawful cut) (hheight : 0 < height) (hi : i < (sourcePane T width height).inner.height) :
    ∃ line : TextLine, line.chars = SourcePane.shown v.source ((v.draw width height T).2.sourceScroll + i) ∧
      (v.draw width height T).1.symbols (sourcePane T width height).inner i = cut (sourcePane T width height).inner.width line := by
  have hempty : (Screen.blank width height).Empty (sourcePane T width height).inner := fun _ _ _ => rfl
  obtain ⟨line, hchars, hsymbols⟩ := SourcePane.symbols_draw v.source v.cursor (v.error.map fun e => e.pos.line) (v.focus == .source)
    v.sourceScroll hT (panes_fitIn hT hheight width).1 hempty hi
  refine ⟨line, hchars, (Screen.symbols_congr ?_ hi).trans hsymbols⟩
  intro x y hinner
  have hsource := Area.inner_within _ x y hinner
  exact (cell_draw hT hheight (.inl hsource)).trans (cell_drawListing hT hheight hsource)

/-- The rows of the listing pane, once all is drawn, show the instructions from the scroll on. -/
theorem symbols_listing (hT : T.Lawful cut) (hheight : 0 < height) (hprogram : v.program.size ≠ 0)
    (hi : i < (listingPane T width height).inner.height) :
    (v.draw width height T).1.symbols (listingPane T width height).inner i =
      (Text.fill (listingPane T width height).inner.width
        (ListingPane.shown v.program v.cursor ((v.draw width height T).2.listingScroll + i))).map .ofChar := by
  obtain ⟨hsource, hlisting, -⟩ := panes_fitIn hT hheight width
  have hempty : (v.drawSource T width height).1.Empty (listingPane T width height).inner := by
    intro x y hinner
    have houtside := not_mem_sourcePane hT hheight (Area.inner_within _ x y hinner)
    rw [drawSource, SourcePane.draw, hT.render_sameOutside _ _ _ hsource x y houtside]
    rfl
  have hdrawn := ListingPane.symbols_draw v.program v.cursor (v.focus == .listing) v.follow v.listingScroll hT hprogram
    ((sameSize_drawSource hT).fitsIn hlisting) hempty hi
  refine (Screen.symbols_congr ?_ hi).trans hdrawn
  intro x y hinner
  exact cell_draw hT hheight (.inr (Area.inner_within _ x y hinner))

end

/-! ## Following the cursor -/

/-- A move of the cursor makes the viewer follow it. -/
theorem moveTo_follow (v : Viewer) (line : Nat) : (v.moveTo line).follow = true := by
  unfold moveTo
  cases v.error <;> rfl

/-- The key for the fault makes the viewer follow the cursor, if there is a fault. -/
theorem showError_follow (v : Viewer) : v.showError.follow = (v.follow || v.error.isSome) := by
  unfold showError
  cases v.error with
  | none => exact (Bool.or_false v.follow).symm
  | some error => exact (v.moveTo_follow error.pos.line).trans (Bool.or_true v.follow).symm

/-- Other keys with a character do not change whether it follows. -/
theorem press_char_follow (v : Viewer) {c : Char} (hc : c ≠ 'e') : (v.press (.char c)).follow = v.follow := by
  rcases v.press_char hc with hpress | hpress <;> rw [hpress]

/-- A key that moves the cursor lets the listing follow it, and no key takes that back. -/
theorem follow_press (v : Viewer) (key : Key) : (v.press key).follow = (v.follow || v.moves (.key key)) := by
  cases key with
  | home | last => exact (v.moveTo_follow _).trans (Bool.or_true v.follow).symm
  | up | down =>
    unfold press moves
    cases v.focus with
    | source => exact (v.moveTo_follow _).trans (Bool.or_true v.follow).symm
    | listing => exact (Bool.or_false v.follow).symm
  | tab | backTab | escape | other => exact (Bool.or_false v.follow).symm
  | char c =>
    by_cases hc : c = 'e'
    · subst hc
      exact v.showError_follow
    · rw [v.moves_char hc, Bool.or_false, v.press_char_follow hc]

/-- Over a run of keys the listing follows the cursor if it did before or one of the keys moves the cursor. -/
theorem follow_run (v : Viewer) (T : Toolkit) (keys : List Key) :
    (v.run T (keys.map .key)).follow = (v.follow || v.moved T (keys.map .key)) := by
  induction keys generalizing v with
  | nil => exact (Bool.or_false _).symm
  | cons key keys ih =>
    rw [List.map_cons, moved, ← Bool.or_assoc, ← follow_press]
    exact ih (v.press key)

/-- Since the viewer was last drawn, only keys were pressed, and one of them moved the cursor. -/
def MovedSinceDraw (v : Viewer) (T : Toolkit) (events : List Event) : Prop :=
  ∃ (before : List Event) (keys : List Key), events = before ++ keys.map .key ∧ (v.run T before).moved T (keys.map .key) = true

/-- Then the listing follows the cursor at the next draw. -/
theorem MovedSinceDraw.follow {v : Viewer} {T : Toolkit} {events : List Event} (h : v.MovedSinceDraw T events) :
    (v.run T events).follow = true := by
  obtain ⟨before, keys, rfl, hmoved⟩ := h
  have hrun : v.run T (before ++ keys.map .key) = (v.run T before).run T (keys.map .key) := List.foldl_append
  rw [hrun, follow_run, hmoved, Bool.or_true]

/-- What a draw of the viewer has to show on a screen of the given size, if `cut` is how the toolkit writes a line on a row. It changes no
more of the viewer than its scrolls. -/
structure InView (v : Viewer) (T : Toolkit) (cut : Nat → TextLine → List Grapheme) (width height : Nat) (drawn : Screen × Viewer) :
    Prop where
  kept : drawn.2 = { v with sourceScroll := drawn.2.sourceScroll, listingScroll := drawn.2.listingScroll, follow := false }
  cursor_shown : drawn.2.sourceScroll ≤ v.cursor - 1 ∧ v.cursor - 1 < drawn.2.sourceScroll + (height - 3)
  /-- Each inner row of the source pane is a line of the text with its number, cut to the width of the pane. -/
  source_shown : ∀ i < height - 3, ∃ line : TextLine, line.chars = SourcePane.shown v.source (drawn.2.sourceScroll + i) ∧
    drawn.1.symbols (sourcePane T width height).inner i = cut (sourcePane T width height).inner.width line
  /-- Where all characters of the line fill one cell each, these are the first ones that have room, and spaces behind them. -/
  narrow_shown : ∀ i < height - 3, (∀ c ∈ SourcePane.shown v.source (drawn.2.sourceScroll + i), Text.Narrow c) →
    drawn.1.symbols (sourcePane T width height).inner i =
      (Text.fill (sourcePane T width height).inner.width (SourcePane.shown v.source (drawn.2.sourceScroll + i))).map .ofChar
  /-- Each inner row of the listing is an instruction, cut likewise. -/
  listing_shown : v.program.size ≠ 0 → ∀ i < height - 3,
    drawn.1.symbols (listingPane T width height).inner i =
      (Text.fill (listingPane T width height).inner.width
        (ListingPane.shown v.program v.cursor (drawn.2.listingScroll + i))).map .ofChar
  listing_filled : v.program.size ≠ 0 → drawn.2.listingScroll = 0 ∨ drawn.2.listingScroll + (height - 3) ≤ v.program.size

section

variable {T : Toolkit} {cut : Nat → TextLine → List Grapheme} {height : Nat}

/-- Inside their frames the panes have three rows less than the screen. -/
theorem inner_height (hT : T.Lawful cut) (hheight : 4 ≤ height) (width : Nat) :
    (sourcePane T width height).inner.height = height - 3 ∧ (listingPane T width height).inner.height = height - 3 := by
  obtain ⟨left, -, hsource, hlisting, -⟩ := panes_eq hT (Nat.lt_of_lt_of_le (by decide) hheight) width
  rw [hsource, hlisting]
  simp only [Area.inner]
  omega

/-- That is how many rows the panes themselves count on. -/
theorem visibleRows_pane (hT : T.Lawful cut) (hheight : 4 ≤ height) (width : Nat) :
    SourcePane.visibleRows (sourcePane T width height).height = height - 3 ∧
      SourcePane.visibleRows (listingPane T width height).height = height - 3 := by
  obtain ⟨left, -, hsource, hlisting, -⟩ := panes_eq hT (Nat.lt_of_lt_of_le (by decide) hheight) width
  rw [hsource, hlisting]
  simp only [SourcePane.visibleRows]
  omega

/-- The scroll that the listing is drawn with. -/
theorem listingScroll_draw (v : Viewer) (hT : T.Lawful cut) (hheight : 4 ≤ height) (width : Nat) (hprogram : v.program.size ≠ 0) :
    (v.draw width height T).2.listingScroll =
      ListingPane.scrollTo (height - 3) v.program.size v.marked v.follow v.listingScroll := by
  rw [draw_eq, drawListing, ListingPane.draw, if_neg hprogram, (visibleRows_pane hT hheight width).2]

/-- A draw shows what it has to, whatever the state of the viewer. -/
theorem inView_draw (v : Viewer) (hT : T.Lawful cut) (hheight : 4 ≤ height) (width : Nat) :
    v.InView T cut width height (v.draw width height T) := by
  obtain ⟨hsource, hlisting⟩ := inner_height hT hheight width
  have hpositive : 0 < height := Nat.lt_of_lt_of_le (by decide) hheight
  refine ⟨rfl, ?_, ?_, ?_, ?_, ?_⟩
  · have hroom : 1 ≤ height - 3 := by omega
    have hscroll := SourcePane.scrollTo_in_view hroom v.cursor v.sourceScroll
    rw [← (visibleRows_pane hT hheight width).1] at hscroll ⊢
    exact hscroll
  · intro i hi
    exact symbols_source hT hpositive (hsource ▸ hi)
  · intro i hi hnarrow
    obtain ⟨line, hchars, hsymbols⟩ := symbols_source (v := v) hT hpositive (hsource ▸ hi)
    rw [← hchars] at hnarrow ⊢
    rw [hsymbols, hT.cut_narrow _ _ hnarrow]
  · intro hprogram i hi
    exact symbols_listing hT hpositive hprogram (hlisting ▸ hi)
  · intro hprogram
    rw [listingScroll_draw v hT hheight width hprogram]
    exact ListingPane.scrollTo_filled _ _ _ _ _

/-- Where the listing follows the cursor, the first instruction of its line is on the screen. -/
theorem first_shown {v : Viewer} (hfollow : v.follow = true) (hT : T.Lawful cut) (hheight : 4 ≤ height) (width : Nat) {first : Nat}
    (hfirst : v.program.IsFirstOn v.cursor first) :
    (v.draw width height T).2.listingScroll ≤ first ∧ first < (v.draw width height T).2.listingScroll + (height - 3) := by
  have hlt := hfirst.lt_size
  rw [listingScroll_draw v hT hheight width (Nat.ne_of_gt (Nat.zero_lt_of_lt hlt)), hfollow]
  exact ListingPane.scrollTo_follow (by omega) hlt hfirst.head?_addressesOn _

end

end Viewer

/-- Whatever keys were pressed and on whatever screens the viewer was drawn before, with any toolkit that obeys the laws: a draw with room
for at least one row shows the cursor's line, each line in its row and cut to the width of the pane, and likewise the instructions, with no
row left empty while some are hidden above. If the cursor was moved since the draw before, the first instruction of its line is among
those shown. -/
theorem draw_in_view {T : Toolkit} {cut : Nat → TextLine → List Grapheme} (hT : T.Lawful cut) (source : String)
    (result : Except Diagnostic Program) (events : List Viewer.Event) (width : Nat) {height : Nat} (hheight : 4 ≤ height) :
    let v := (Viewer.ofResult source result).run T events
    v.InView T cut width height (v.draw width height T) ∧
      ((∃ mode, result = compile mode (.ofString source)) → 1 ≤ v.cursor) ∧
      ((Viewer.ofResult source result).MovedSinceDraw T events → ∀ first, v.program.IsFirstOn v.cursor first →
        (v.draw width height T).2.listingScroll ≤ first ∧ first < (v.draw width height T).2.listingScroll + (height - 3)) := by
  intro v
  refine ⟨v.inView_draw hT hheight width, ?_, ?_⟩
  · rintro ⟨mode, rfl⟩
    exact Viewer.one_le_cursor_run T (Viewer.one_le_cursor_ofText mode source) events
  · intro hmoved first hfirst
    exact Viewer.first_shown hmoved.follow hT hheight width hfirst

/-- A text whose last line has the last two of five instructions. -/
def Sample.sixLines : String := "a\nb\nc\nd\ne\nf"

/-- The instructions. -/
def Sample.fiveInstructions : Program :=
  ⟨#[⟨⟨.lit, some 1⟩, ⟨1, 1⟩⟩, ⟨⟨.lod, some 0⟩, ⟨2, 1⟩⟩, ⟨⟨.add, none⟩, ⟨2, 1⟩⟩, ⟨⟨.sto, some 0⟩, ⟨6, 1⟩⟩, ⟨⟨.ret, none⟩, ⟨6, 1⟩⟩]⟩

/-- Scrolls the listing, goes back to the text and to its last line. -/
def Sample.toLastLine : List Viewer.Event := [.draw 40 20, .key .tab, .key .down, .key .down, .key .tab, .key .last]

/-- On a screen of 48 columns and 5 rows there is room for two lines and for the last two instructions, whose rows are cut. -/
theorem draw_in_view_last_line :
    let v := (Viewer.ofResult Sample.sixLines (.ok Sample.fiveInstructions)).run .grid Sample.toLastLine
    v.InView .grid TextLine.cells 48 5 (v.draw 48 5) ∧ v.program.IsFirstOn v.cursor 3 ∧
      (v.draw 48 5).2.listingScroll ≤ 3 ∧ 3 < (v.draw 48 5).2.listingScroll + 2 ∧
      (v.draw 48 5).1.symbols (Viewer.sourcePane .grid 48 5).inner 1 = "   6 f                     ".toList.map .ofChar ∧
      (v.draw 48 5).1.symbols (Viewer.listingPane .grid 48 5).inner 0 = "▶   3 STO       0".toList.map .ofChar := by
  intro v
  have hfirst : v.program.IsFirstOn v.cursor 3 := ⟨by decide +kernel, by decide +kernel⟩
  have hmoved : (Viewer.ofResult Sample.sixLines (.ok Sample.fiveInstructions)).MovedSinceDraw .grid Sample.toLastLine :=
    ⟨[.draw 40 20], [.tab, .down, .down, .tab, .last], rfl, by decide +kernel⟩
  have hheight : 4 ≤ 5 := by decide
  obtain ⟨hview, -, hshown⟩ :=
    draw_in_view Toolkit.lawful_grid Sample.sixLines (.ok Sample.fiveInstructions) Sample.toLastLine 48 hheight
  obtain ⟨hscroll, hroom⟩ := hshown hmoved 3 hfirst
  exact ⟨hview, hfirst, hscroll, hroom, by decide +kernel, by decide +kernel⟩

end C0Stack
