/-!
# Padding

A text brought to at least a given number of characters by spaces; a longer text stays as it is.
-/

namespace C0Stack.Text

/-- `count` spaces. -/
def spaces (count : Nat) : String := String.ofList (List.replicate count ' ')

/-- The text at the right of a field of `width` characters. -/
def alignRight (width : Nat) (text : String) : String := spaces (width - text.length) ++ text

/-- The text at the left of a field of `width` characters. -/
def alignLeft (width : Nat) (text : String) : String := text ++ spaces (width - text.length)

/-- A text at the right of its field stands behind the spaces. -/
theorem toList_alignRight (width : Nat) (text : String) :
    (alignRight width text).toList = List.replicate (width - text.toList.length) ' ' ++ text.toList := by
  rw [alignRight, spaces, String.toList_append, String.toList_ofList, String.length_toList]

/-- A text at the left of its field stands in front of the spaces. -/
theorem toList_alignLeft (width : Nat) (text : String) :
    (alignLeft width text).toList = text.toList ++ List.replicate (width - text.toList.length) ' ' := by
  rw [alignLeft, spaces, String.toList_append, String.toList_ofList, String.length_toList]

/-- A number is written in decimal digits. -/
theorem toList_toString (n : Nat) : (toString n).toList = Nat.toDigits 10 n := Nat.toList_repr

end C0Stack.Text
