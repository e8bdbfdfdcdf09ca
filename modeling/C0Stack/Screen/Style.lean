/-!
# Styles

The colours and the weight of a cell on the screen. A style may leave either colour open, and laid over another it changes only
what it sets.
-/

namespace C0Stack

/-- A colour of a terminal. -/
inductive Color where
  | rgb (red green blue : UInt8)
  | black
  | white
deriving DecidableEq, Repr, Inhabited

/-- The colours of text and background, if they are set, and whether the text is bold. -/
structure Style where
  fg : Option Color
  bg : Option Color
  bold : Bool
deriving DecidableEq, Repr, Inhabited

namespace Style

/-- The style that sets nothing. -/
def plain : Style := ⟨none, none, false⟩

/-- The style that sets the colour of the text. -/
def ofFg (color : Color) : Style := ⟨some color, none, false⟩

/-- The style that sets the colour of the background. -/
def ofBg (color : Color) : Style := ⟨none, some color, false⟩

/-- The style with another colour of the text. -/
def withFg (s : Style) (color : Color) : Style := { s with fg := some color }

/-- The style with another colour of the background. -/
def withBg (s : Style) (color : Color) : Style := { s with bg := some color }

/-- The style in bold. -/
def inBold (s : Style) : Style := { s with bold := true }

/-- The style with another one laid over it. -/
def patch (s top : Style) : Style := ⟨top.fg.or s.fg, top.bg.or s.bg, s.bold || top.bold⟩

@[simp] theorem patch_plain (s : Style) : s.patch plain = s := by
  simp [patch, plain]

@[simp] theorem plain_patch (s : Style) : plain.patch s = s := by
  simp [patch, plain]

end Style

end C0Stack
