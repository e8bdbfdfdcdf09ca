import C0Stack.Screen.Paragraph
import C0Stack.Text.Alphabetic
import C0Stack.Text.Numeric
import C0Stack.Token.Kind
import C0Stack.Ty
import C0Stack.Viewer.Theme

/-!
# Highlighting

A line of source text, cut into spans that show what its parts are. It does not need the line to be correct: what the lexer would
refuse is shown as well.
-/

namespace C0Stack.Highlight

/-- The character belongs to a word: a name, a keyword or a number. -/
def isWordPart (c : Char) : Bool := Text.isAlphabetic c || Text.isNumeric c || c == '_' || c == '.'

/-- The style of a word, and of a word before an opening parenthesis. -/
def wordStyle (word : List Char) (isCall : Bool) : Style :=
  if (Ty.named? (String.ofList word)).isSome then .ofFg Theme.typeName
  else if (Token.Kind.keyword? (String.ofList word)).isSome then (Style.ofFg Theme.keyword).inBold
  else if (word.head?.map Char.isDigit).getD false then .ofFg Theme.number
  else if isCall then .ofFg Theme.function
  else .ofFg Theme.text

/-- The style of a character that stands alone. -/
def symbolStyle (c : Char) : Style :=
  if c = '\x7b' ∨ c = '\x7d' ∨ c = '(' ∨ c = ')' then .ofFg Theme.primary else .ofFg Theme.text

/-- A span of the characters in the style, unless there are none. -/
def spanOf (chars : List Char) (style : Style) : TextLine := if chars.isEmpty then [] else [⟨chars, style⟩]

/-- The rest of a string literal after its opening quote, up to and with its closing quote or to the end, and what comes after it.
A backslash takes the next character with it. -/
def splitString (quote : Char) : List Char → List Char × List Char
  | [] => ([], [])
  | '\\' :: c :: rest => ('\\' :: c :: (splitString quote rest).1, (splitString quote rest).2)
  | c :: rest => if c = quote then ([c], rest) else (c :: (splitString quote rest).1, (splitString quote rest).2)

/-- A string and what is behind it are all there is. -/
theorem splitString_append (quote : Char) (cs : List Char) : (splitString quote cs).1 ++ (splitString quote cs).2 = cs := by
  fun_induction splitString quote cs <;> simp_all

/-- Behind a string there is no more than before. -/
theorem length_splitString_le (quote : Char) (cs : List Char) : (splitString quote cs).2.length ≤ cs.length := by
  have h := congrArg List.length (splitString_append quote cs)
  rw [List.length_append] at h
  omega

/-- The spans of the characters, of which `word` are the last ones read and belong to a word. A word before a quote stays plain. -/
def spans (word cs : List Char) : TextLine :=
  match cs with
  | [] => spanOf word (wordStyle word false)
  | c :: rest =>
    if c = '"' ∨ c = '\'' then
      spanOf word .plain ++ ⟨c :: (splitString c rest).1, .ofFg Theme.string⟩ :: spans [] (splitString c rest).2
    else if isWordPart c then spans (word ++ [c]) rest
    else spanOf word (wordStyle word (c == '(')) ++ ⟨[c], symbolStyle c⟩ :: spans [] rest
termination_by cs.length
decreasing_by
  · have := length_splitString_le c rest
    simp only [List.length_cons]
    omega
  · simp
  · simp

/-- The spans of a line. -/
def line (text : String) : TextLine := spans [] text.toList

end C0Stack.Highlight
