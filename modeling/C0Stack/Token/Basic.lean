import C0Stack.Position
import C0Stack.Double
import C0Stack.Text.Quoted
import C0Stack.Token.Kind

/-!
# Tokens

A token is a kind, what it holds, and the span of text it was read from.
-/

namespace C0Stack

/-- What a token holds besides its kind. -/
inductive Token.Value where
  | empty
  | integer (n : UInt64)
  | double (x : Double)
  | text (s : String)
deriving DecidableEq, Repr, Inhabited

/-- A token. `stop` is the place just past its last character. -/
structure Token where
  kind : Token.Kind
  value : Token.Value
  start : Position
  stop : Position
deriving DecidableEq, Repr, Inhabited

namespace Token

/-- The name, or the characters of the string literal. -/
def text? (t : Token) : Option String :=
  match t.value with
  | .text s => some s
  | _ => none

/-- The text of a token that holds one, and the empty text otherwise. -/
def text (t : Token) : String := t.text?.getD ""

/-- How a message shows the token. -/
def describe (t : Token) : String :=
  match t.kind, t.value with
  | .name, .text s => "identifier '" ++ s ++ "'"
  | .string, .text s => "string literal " ++ Text.quoted s
  | _, .integer n => "integer literal " ++ toString n.toNat
  | _, .double x => "double literal " ++ x.render
  | k, _ => k.describe

/-- The token that stands for the end of the input at `pos`. -/
def endAt (pos : Position) : Token := ⟨.endOfFile, .empty, pos, pos⟩

end Token

end C0Stack
