import C0Stack.Proofs.Viewer.Highlighting

/-!
# What the toolkit is relied on for

The viewer is drawn by a toolkit that it does not look into. `Toolkit.Lawful` says what is relied on: how rectangles are split, that a
paragraph stays in its rectangle, and that the lines of a framed paragraph stand on the rows inside the frame, each cut to the width. How
a line is cut is up to the toolkit, since it decides which characters share a cell and which need two; for characters that fill one cell
each, `Text.fill` is what it comes to.
-/

namespace C0Stack

/-! ## Cells and rectangles -/

namespace Text

/-- The character is printable ASCII, or the mark in front of an instruction: on a terminal it fills one cell and shares it with no
other such character. -/
def Narrow (c : Char) : Prop := 32 ≤ c.toNat ∧ c.toNat ≤ 126 ∨ c = '▶'

instance : DecidablePred Narrow := fun c => inferInstanceAs (Decidable (32 ≤ c.toNat ∧ c.toNat ≤ 126 ∨ c = '▶'))

/-- The characters cut to the width, or brought to it by spaces. -/
def fill (width : Nat) (cs : List Char) : List Char := (cs ++ List.replicate width ' ').take width

end Text

namespace Area

/-- A cell lies in the rectangle if its column and its row do. -/
theorem contains_iff {a : Area} {x y : Nat} :
    a.contains x y = true ↔ a.x ≤ x ∧ x < a.x + a.width ∧ a.y ≤ y ∧ y < a.y + a.height := by
  simp [contains, and_assoc]

/-- The rectangle lies on the screen. -/
def FitsIn (a : Area) (s : Screen) : Prop := a.x + a.width ≤ s.width ∧ a.y + a.height ≤ s.height

/-- Every cell of the rectangle lies in the other one. -/
def Within (a b : Area) : Prop := ∀ x y, a.contains x y = true → b.contains x y = true

/-- The inside of a rectangle is a part of it. -/
theorem inner_within (a : Area) : a.inner.Within a := by
  intro x y h
  simp only [inner, contains_iff] at h ⊢
  omega

end Area

namespace Screen

/-- The screens have the same cells outside the rectangle. -/
def SameOutside (a : Area) (s s' : Screen) : Prop := ∀ x y, a.contains x y = false → s'.cell x y = s.cell x y

/-- The screens are of the same size. -/
def SameSize (s s' : Screen) : Prop := s'.width = s.width ∧ s'.height = s.height

/-- No cell of the rectangle shows anything. -/
def Empty (s : Screen) (a : Area) : Prop := ∀ x y, a.contains x y = true → (s.cell x y).toGrapheme = .blank

/-- What the cells of a row of the rectangle show. -/
def symbols (s : Screen) (a : Area) (i : Nat) : List Grapheme :=
  (List.range a.width).map fun x => (s.cell (a.x + x) (a.y + i)).toGrapheme

end Screen

/-! ## The laws -/

/-- What the viewer relies on. `cut width line` is what the cells of a row of `width` empty cells show once the line is written there. -/
structure Toolkit.Lawful (T : Toolkit) (cut : Nat → TextLine → List Grapheme) : Prop where
  /-- The last row is split off where there is one: the rows above get all that one row leaves. -/
  splitLastRow_eq : ∀ a : Area, 0 < a.height →
    T.splitLastRow a = ({ a with height := a.height - 1 }, { a with y := a.y + (a.height - 1), height := 1 })
  /-- The columns are split into two parts side by side, which together are all of them. -/
  splitColumns_eq : ∀ a : Area, ∃ left ≤ a.width,
    T.splitColumns a = ({ a with width := left }, { a with x := a.x + left, width := a.width - left })
  /-- Drawing does not change the size of the screen. -/
  render_sameSize : ∀ s a p, Screen.SameSize s (T.render s a p)
  /-- A paragraph is drawn in its own rectangle only. -/
  render_sameOutside : ∀ s a p, a.FitsIn s → Screen.SameOutside a s (T.render s a p)
  /-- The frame takes one cell on each side, and inside it the lines of the paragraph stand row by row, each from the left. Rows for
  which there is no line stay empty. -/
  render_symbols : ∀ s a p i, a.FitsIn s → p.frame.isSome = true → p.alignment = .left → s.Empty a.inner → i < a.inner.height →
    (T.render s a p).symbols a.inner i = cut a.inner.width (p.lines.getD i [])
  /-- Characters that fill one cell each stand in the cells one by one, as far as there is room. -/
  cut_narrow : ∀ width line, (∀ c ∈ TextLine.chars line, Text.Narrow c) →
    cut width line = (Text.fill width (TextLine.chars line)).map .ofChar

namespace Screen

section

variable {a : Area} {s s' s'' : Screen} {i : Nat}

/-- Two drawings in one rectangle are a drawing in it. -/
theorem SameOutside.trans (h : SameOutside a s s') (h' : SameOutside a s' s'') : SameOutside a s s'' :=
  fun x y hxy => (h' x y hxy).trans (h x y hxy)

/-- What is drawn in a part of a rectangle is drawn in the rectangle. -/
theorem SameOutside.mono {b : Area} (hab : a.Within b) (h : SameOutside a s s') : SameOutside b s s' := by
  intro x y hxy
  refine h x y (Bool.eq_false_iff.2 fun ha => ?_)
  rw [hab x y ha] at hxy
  cases hxy

/-- The size stays the same from drawing to drawing. -/
theorem SameSize.trans (h : SameSize s s') (h' : SameSize s' s'') : SameSize s s'' :=
  ⟨h'.1.trans h.1, h'.2.trans h.2⟩

/-- A rectangle that lies on a screen lies on every screen of its size. -/
theorem SameSize.fitsIn (h : SameSize s s') (ha : a.FitsIn s) : a.FitsIn s' := by
  unfold Area.FitsIn at ha ⊢
  rwa [h.1, h.2]

/-- The cells of a row lie in the rectangle. -/
theorem contains_row {x : Nat} (hx : x < a.width) (hi : i < a.height) : a.contains (a.x + x) (a.y + i) = true := by
  rw [Area.contains_iff]
  omega

/-- A row shows the same on two screens that have the same cells in the rectangle. -/
theorem symbols_congr (h : ∀ x y, a.contains x y = true → s'.cell x y = s.cell x y) (hi : i < a.height) :
    s'.symbols a i = s.symbols a i := by
  refine List.map_congr_left ?_
  intro x hx
  rw [h _ _ (contains_row (List.mem_range.1 hx) hi)]

end

end Screen

/-- A line of characters that fill one cell each stands in its row character by character. -/
theorem Toolkit.Lawful.render_narrow {T : Toolkit} {cut : Nat → TextLine → List Grapheme} (hT : T.Lawful cut) {s : Screen} {a : Area}
    {p : Paragraph} {i : Nat} {text : List Char} (ha : a.FitsIn s) (hframe : p.frame.isSome = true) (hleft : p.alignment = .left)
    (hempty : s.Empty a.inner) (hi : i < a.inner.height) (hline : TextLine.chars (p.lines.getD i []) = text)
    (htext : ∀ c ∈ text, Text.Narrow c) :
    (T.render s a p).symbols a.inner i = (Text.fill a.inner.width text).map .ofChar := by
  subst hline
  rw [hT.render_symbols s a p i ha hframe hleft hempty hi, hT.cut_narrow _ _ htext]

end C0Stack
