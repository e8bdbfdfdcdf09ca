import C0Stack.Screen.Style

/-!
# The colours of the viewer
-/

namespace C0Stack.Theme

/-- Ordinary text. -/
def text : Color := .rgb 205 214 244

/-- Brackets, and the number of the cursor's line in the status bar. -/
def primary : Color := .rgb 137 180 250

/-- The cursor's line number and the addresses of its instructions. -/
def secondary : Color := .rgb 250 179 135

/-- What stands back. -/
def faint : Color := .rgb 108 112 134

/-- A text that compiles. -/
def success : Color := .rgb 166 227 161

/-- A text that is refused. -/
def error : Color := .rgb 243 139 168

/-- Keywords. -/
def keyword : Color := .rgb 137 180 250

/-- String literals. -/
def string : Color := .rgb 250 179 135

/-- Numbers. -/
def number : Color := .rgb 250 179 135

/-- Names of functions. -/
def function : Color := .rgb 249 226 175

/-- Names of types, and operations on storage. -/
def typeName : Color := .rgb 148 226 213

/-- Operations that go on elsewhere. -/
def jump : Color := .rgb 245 194 231

/-- The background of the cursor's line. -/
def currentLine : Color := .rgb 50 50 70

/-- The border of a pane. -/
def border (focused : Bool) : Style :=
  if focused then (Style.ofFg (.rgb 249 226 175)).inBold else .ofFg (.rgb 108 112 134)

end C0Stack.Theme
