import C0Stack.Proofs.Source.Lines
import C0Stack.Proofs.Viewer.Toolkit

/-!
# The grid obeys the laws

The toolkit that draws cell by cell is one that the viewer can rely on (`Toolkit.lawful_grid`). Its rows are those of `TextLine.cells`.
-/

namespace C0Stack

/-! ## Lines of narrow characters -/

namespace Text

/-- A narrow character fills one column. -/
theorem Narrow.columns_eq {c : Char} (h : Narrow c) : columns c = 1 := by
  rcases h with ⟨-, hlast⟩ | rfl
  · have hval : c.val < 128 := by
      rw [UInt32.lt_iff_toNat_lt]
      exact Nat.lt_succ_of_le (Nat.le_succ_of_le hlast)
    rw [columns, if_pos hval]
  · decide +kernel

/-- A narrow character joins no other. -/
theorem Narrow.joins_eq {d : Char} (h : Narrow d) (c : Char) : joins c d = false := by
  have hmark : isMark d = false := by
    rcases h with ⟨-, hlast⟩ | rfl
    · have hval : ¬ 128 ≤ d.val := by
        rw [UInt32.le_iff_toNat_le]
        exact Nat.not_le.2 (Nat.lt_succ_of_le (Nat.le_succ_of_le hlast))
      have hjoiner : ∀ e : Char, 128 ≤ e.val → (d == e) = false := by
        intro e he
        refine beq_eq_false_iff_ne.2 ?_
        rintro rfl
        exact hval he
      rw [isMark, isExtending, decide_eq_false hval, hjoiner _ (by decide), hjoiner _ (by decide)]
      rfl
    · decide +kernel
  rw [joins, hmark, Bool.false_and]

/-- Narrow characters stand by themselves. -/
theorem graphemes_narrow {cs : List Char} (h : ∀ c ∈ cs, Narrow c) : graphemes cs = cs.map .ofChar := by
  induction cs with
  | nil => rfl
  | cons c cs ih =>
    obtain ⟨-, hcs⟩ := List.forall_mem_cons.1 h
    rw [graphemes, ih hcs]
    cases cs with
    | nil => rfl
    | cons d cs =>
      have hd : joins c (Grapheme.ofChar d).symbol = false := (hcs d List.mem_cons_self).joins_eq c
      simp only [List.map_cons, hd, Bool.false_eq_true, if_false]

/-- The characters of a line that has no line feed are those of the only line it has. -/
theorem flatten_splitLines {cs : List Char} (h : '\n' ∉ cs) : (splitLines cs).flatten = cs := by
  fun_induction splitLines cs with
  | case1 => rfl
  | case2 rest _ => exact absurd List.mem_cons_self h
  | case3 rest _ => exact absurd (List.mem_cons_of_mem _ List.mem_cons_self) h
  | case4 c rest _ _ ih =>
    have hrest := ih fun hmem => h (List.mem_cons_of_mem c hmem)
    have hflatten : (consFirst c (splitLines rest)).flatten = c :: (splitLines rest).flatten := by
      cases splitLines rest <;> rfl
    rw [hflatten, hrest]

/-- To cut a text and then to fill it up is to fill it up. -/
theorem fill_take (width : Nat) (cs : List Char) : fill width (cs.take width) = fill width cs := by
  unfold fill
  by_cases h : cs.length ≤ width
  · rw [List.take_of_length_le h]
  · have hlength : (cs.take width).length = width := List.length_take_of_le (Nat.le_of_not_le h)
    rw [List.take_append_of_le_length (Nat.le_of_eq hlength.symm), List.take_take, Nat.min_self,
      List.take_append_of_le_length (Nat.le_of_not_le h)]

end Text

namespace TextLine

/-- What a column shows on an empty row. -/
def Column.grapheme : Column → Grapheme
  | untouched | covered => .blank
  | glyph g _ => g

/-- What the cells of a row of `width` empty cells show once the line is written there. -/
def cells (width : Nat) (line : TextLine) : List Grapheme :=
  ((layout .left width line).map Column.grapheme ++ List.replicate width Grapheme.blank).take width

/-- What is written of a line of narrow characters is these characters. -/
theorem glyphs_narrow {line : TextLine} (h : ∀ c ∈ line.chars, Text.Narrow c) :
    line.glyphs.map Prod.fst = line.chars.map .ofChar := by
  induction line with
  | nil => rfl
  | cons span line ih =>
    rw [chars_cons, List.forall_mem_append] at h
    have hfeed : '\n' ∉ span.chars := fun hmem => absurd (h.1 _ hmem) (by decide)
    have hspan : ((Text.graphemes (Text.splitLines span.chars).flatten).map fun g => (g, span.style)).map Prod.fst =
        span.chars.map .ofChar := by
      rw [Text.flatten_splitLines hfeed, Text.graphemes_narrow h.1, List.map_map]
      exact List.map_id _
    rw [glyphs, List.flatMap_cons, List.map_append, hspan, chars_cons, List.map_append]
    exact congrArg _ (ih h.2)

/-- As many characters of one column each have room as there are columns left. -/
theorem fit_narrow {width used : Nat} (hused : used ≤ width) {glyphs : List Glyph}
    (h : ∀ glyph ∈ glyphs, Text.columns glyph.1.symbol = 1) :
    fit width used glyphs = glyphs.take (width - used) := by
  induction glyphs generalizing used with
  | nil => rw [fit, List.take_nil]
  | cons glyph glyphs ih =>
    obtain ⟨g, style⟩ := glyph
    obtain ⟨hg, hglyphs⟩ := List.forall_mem_cons.1 h
    simp only [fit, hg]
    by_cases hwidth : width < 1
    · -- without any column every character is too wide
      rw [if_pos hwidth, ih hused hglyphs, Nat.sub_eq_zero_of_le (by omega), List.take_zero, List.take_zero]
    · rw [if_neg hwidth]
      by_cases hroom : width < used + 1
      · rw [if_pos hroom, Nat.sub_eq_zero_of_le (by omega), List.take_zero]
      · obtain ⟨left, hleft⟩ : ∃ left, width - used = left + 1 := ⟨width - (used + 1), by omega⟩
        rw [if_neg hroom, ih (by omega) hglyphs, hleft, List.take_succ_cons, show width - (used + 1) = left by omega]

/-- Characters of one column each fill one column each. -/
theorem spread_narrow {glyphs : List Glyph} (h : ∀ glyph ∈ glyphs, Text.columns glyph.1.symbol = 1) :
    (spread glyphs).map Column.grapheme = glyphs.map Prod.fst := by
  induction glyphs with
  | nil => rfl
  | cons glyph glyphs ih =>
    obtain ⟨g, style⟩ := glyph
    obtain ⟨hg, hglyphs⟩ := List.forall_mem_cons.1 h
    have hfill : Column.fill g style (Text.columns g.symbol) = [.glyph g style] := by
      rw [hg]
      rfl
    rw [spread, List.flatMap_cons]
    simp only [hfill]
    exact congrArg (g :: ·) (ih hglyphs)

/-- Narrow characters stand in the cells one by one. -/
theorem cells_narrow (width : Nat) {line : TextLine} (h : ∀ c ∈ line.chars, Text.Narrow c) :
    cells width line = (Text.fill width line.chars).map .ofChar := by
  have hone : ∀ glyph ∈ line.glyphs, Text.columns glyph.1.symbol = 1 := by
    intro glyph hglyph
    have hmem : glyph.1 ∈ line.glyphs.map Prod.fst := List.mem_map_of_mem hglyph
    rw [glyphs_narrow h] at hmem
    obtain ⟨c, hc, hglyph⟩ := List.mem_map.1 hmem
    rw [← hglyph]
    exact (h c hc).columns_eq
  have hfit : fit width 0 line.glyphs = line.glyphs.take width := fit_narrow (Nat.zero_le _) hone
  have htake : (layout .left width line).map Column.grapheme = (line.chars.take width).map .ofChar := by
    simp only [layout]
    rw [hfit, spread_narrow fun glyph hglyph => hone glyph (List.mem_of_mem_take hglyph), List.map_take, glyphs_narrow h,
      List.map_take]
  have hblank : List.replicate width Grapheme.blank = (List.replicate width ' ').map .ofChar := List.map_replicate.symm
  rw [cells, htake, hblank, ← List.map_append, ← List.map_take, ← Text.fill_take]
  rfl

end TextLine

/-! ## Drawing in a rectangle -/

/-- The title of a frame stands in its rectangle. -/
theorem Area.title_within (a : Area) : Within ⟨a.x + 1, a.y, a.width - 2, min a.height 1⟩ a := by
  intro x y h
  simp only [contains_iff] at h ⊢
  omega

/-- The border has nothing inside. -/
theorem Area.borderSymbol_inner {a : Area} {x y : Nat} (h : a.inner.contains x y = true) : a.borderSymbol x y = none := by
  simp only [inner, contains_iff] at h
  have hleft : (x == a.x) = false := beq_eq_false_iff_ne.2 (by omega)
  have hright : (x + 1 == a.x + a.width) = false := beq_eq_false_iff_ne.2 (by omega)
  have htop : (y == a.y) = false := beq_eq_false_iff_ne.2 (by omega)
  have hbottom : (y + 1 == a.y + a.height) = false := beq_eq_false_iff_ne.2 (by omega)
  simp [borderSymbol, hleft, hright, htop, hbottom]

namespace Screen

section

variable (s : Screen) (a : Area)

/-- Only the cells of the rectangle are changed. -/
theorem sameOutside_update (f : Nat → Nat → Cell → Cell) : SameOutside a s (s.update a f) :=
  fun _ _ hxy => if_neg (Bool.eq_false_iff.1 hxy)

/-- Lines are written in their rectangle. -/
theorem sameOutside_writeLines (alignment : Alignment) (lines : List TextLine) :
    SameOutside a s (s.writeLines a alignment lines) := by
  unfold writeLines
  exact s.sameOutside_update a _

/-- A frame is drawn in its rectangle. -/
theorem sameOutside_drawFrame (frame : TextFrame) : SameOutside a s (s.drawFrame a frame) :=
  (s.sameOutside_update a _).trans ((sameOutside_writeLines _ _ _ _).mono a.title_within)

/-- A paragraph is drawn in its rectangle. -/
theorem sameOutside_drawParagraph (p : Paragraph) : SameOutside a s (s.drawParagraph a p) := by
  unfold drawParagraph
  cases p.frame with
  | some frame =>
    exact ((s.sameOutside_update a _).trans (sameOutside_drawFrame _ a frame)).trans
      ((sameOutside_writeLines _ a.inner _ _).mono a.inner_within)
  | none => exact (s.sameOutside_update a _).trans (sameOutside_writeLines _ a _ _)

/-- The screen keeps its size. -/
theorem sameSize_drawParagraph (p : Paragraph) : SameSize s (s.drawParagraph a p) := by
  unfold drawParagraph
  cases p.frame <;> exact ⟨rfl, rfl⟩

end

section

variable {s : Screen} {a : Area} {i : Nat}

/-- A frame leaves the inside as it was. -/
theorem cell_drawFrame_inner (s : Screen) (frame : TextFrame) {x y : Nat} (h : a.inner.contains x y = true) :
    (s.drawFrame a frame).cell x y = s.cell x y := by
  have htitle : Area.contains ⟨a.x + 1, a.y, a.width - 2, min a.height 1⟩ x y = false := by
    simp only [Area.inner, Area.contains_iff] at h
    simp only [Bool.eq_false_iff, Ne, Area.contains_iff]
    omega
  rw [drawFrame, sameOutside_writeLines _ _ _ _ x y htitle]
  simp only [drawBorder, update, Area.inner_within a x y h, if_true, Area.borderSymbol_inner h]

/-- What an empty cell shows once a column of a line is written there. -/
theorem grapheme_write {c : Cell} (hc : c.toGrapheme = .blank) (column : TextLine.Column) :
    (c.write column).toGrapheme = column.grapheme := by
  cases column with
  | untouched => exact hc
  | glyph g style => rfl
  | covered => rfl

/-- What a cell shows after lines were written on an empty rectangle. -/
theorem grapheme_writeLines (hempty : s.Empty a) (lines : List TextLine) {x : Nat} (hx : x < a.width) (hi : i < a.height) :
    ((s.writeLines a .left lines).cell (a.x + x) (a.y + i)).toGrapheme =
      (((lines.getD i []).layout .left a.width)[x]?.map TextLine.Column.grapheme).getD .blank := by
  have hcontains := contains_row hx hi
  have hcell := hempty _ _ hcontains
  simp only [writeLines, update, hcontains, if_true, Nat.add_sub_cancel_left, List.getElem?_map, List.getD_eq_getElem?_getD]
  cases lines[i]? with
  | none => exact hcell
  | some line =>
    simp only [Option.map_some, Option.bind_some, Option.getD_some]
    cases (TextLine.layout .left a.width line)[x]? with
    | none => exact hcell
    | some column => exact grapheme_write hcell column

/-- A row of an empty rectangle shows the cells of the line that was written there. -/
theorem symbols_writeLines (hempty : s.Empty a) (lines : List TextLine) (hi : i < a.height) :
    (s.writeLines a .left lines).symbols a i = TextLine.cells a.width (lines.getD i []) := by
  refine List.ext_getElem (by simp [symbols, TextLine.cells]) ?_
  intro x hx _
  have hwidth : x < a.width := by simpa [symbols] using hx
  simp only [symbols, List.getElem_map, List.getElem_range, grapheme_writeLines hempty lines hwidth hi, TextLine.cells,
    List.getElem_take]
  by_cases hlayout : x < ((lines.getD i []).layout .left a.width).length
  · rw [List.getElem?_eq_getElem hlayout, List.getElem_append_left (by simpa using hlayout), List.getElem_map]
    rfl
  · rw [List.getElem?_eq_none (Nat.le_of_not_lt hlayout), List.getElem_append_right (by simpa using hlayout), List.getElem_replicate]
    rfl

/-- Inside a frame the rows show the cells of the lines. -/
theorem symbols_drawParagraph {p : Paragraph} (hframe : p.frame.isSome = true) (hleft : p.alignment = .left)
    (hempty : s.Empty a.inner) (hi : i < a.inner.height) :
    (s.drawParagraph a p).symbols a.inner i = TextLine.cells a.inner.width (p.lines.getD i []) := by
  obtain ⟨frame, hframe⟩ := Option.isSome_iff_exists.1 hframe
  simp only [drawParagraph, hframe, hleft]
  refine symbols_writeLines ?_ _ hi
  intro x y hxy
  rw [cell_drawFrame_inner _ _ hxy, ← hempty x y hxy]
  simp only [paint, update, Area.inner_within a x y hxy, if_true]
  rfl

end

end Screen

/-- The viewer can rely on the toolkit that draws cell by cell. -/
theorem Toolkit.lawful_grid : Toolkit.grid.Lawful TextLine.cells where
  splitLastRow_eq a ha := by
    have hlast : min a.height 1 = 1 := by omega
    simp only [grid, Area.splitLastRow, hlast]
  splitColumns_eq a := ⟨(6 * a.width + 5) / 10, by omega, rfl⟩
  render_sameSize s a p := s.sameSize_drawParagraph a p
  render_sameOutside s a p _ := s.sameOutside_drawParagraph a p
  render_symbols _ _ _ _ _ hframe hleft hempty hi := Screen.symbols_drawParagraph hframe hleft hempty hi
  cut_narrow width _ h := TextLine.cells_narrow width h

end C0Stack
