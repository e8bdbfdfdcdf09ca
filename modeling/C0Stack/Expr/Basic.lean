import C0Stack.Diagnostic
import C0Stack.Token.Basic

/-!
# Expressions

The syntax tree of an expression, with the places that messages and code refer to.

A tree can be read from any text: where the text cannot be read on, the tree ends in a fault, which holds the reason. The parts
before it are there all the same, because a fault that they hold themselves comes first in the text.
-/

namespace C0Stack

/-- A name as it stands in a text. -/
structure Ident where
  name : String
  pos : Position
deriving DecidableEq, Repr, Inhabited

/-- The name that a token holds. -/
def Token.ident (t : Token) : Ident := ⟨t.text, t.start⟩

/-- An operator between two operands. -/
inductive BinaryOp where
  | eq
  | ne
  | lt
  | gt
  | le
  | ge
  | add
  | sub
  | mul
  | div
deriving DecidableEq, Repr, Inhabited

/-- The levels of binary operators, from the loosest to the tightest. -/
inductive Precedence where
  | relational
  | additive
  | multiplicative
deriving DecidableEq, Repr, Inhabited

namespace BinaryOp

/-- The level of the operator. -/
def precedence : BinaryOp → Precedence
  | eq | ne | lt | gt | le | ge => .relational
  | add | sub => .additive
  | mul | div => .multiplicative

/-- The operator that a token of the given kind stands for. -/
def ofKind? : Token.Kind → Option BinaryOp
  | .equal => some eq
  | .notEqual => some ne
  | .less => some lt
  | .greater => some gt
  | .lessEqual => some le
  | .greaterEqual => some ge
  | .plus => some add
  | .minus => some sub
  | .star => some mul
  | .slash => some div
  | _ => none

/-- The operator of the given level that a token of the given kind stands for. -/
def ofKindAt? (level : Precedence) (kind : Token.Kind) : Option BinaryOp :=
  (ofKind? kind).filter fun op => op.precedence == level

end BinaryOp

/-- An expression. -/
inductive Expr where
  /-- An integer literal. -/
  | int (pos : Position) (value : UInt64)
  /-- A literal of a kind that has no code: a double or a string. -/
  | literal (pos : Position) (kind : Token.Kind)
  /-- The value of a variable. -/
  | var (name : Ident)
  /-- A call of a function. -/
  | call (callee : Ident) (args : List Expr)
  /-- An assignment to a variable. -/
  | assign (target : Ident) (value : Expr)
  /-- An expression in parentheses, of which the first is at `pos`. -/
  | paren (pos : Position) (inner : Expr)
  /-- A minus sign at `pos` and its operand. -/
  | neg (pos : Position) (operand : Expr)
  /-- A value that is cast, by the word at `pos`, to the type of the given name. -/
  | cast (value : Expr) (pos : Position) (ty : Ident)
  /-- Two operands and the operator between them, at `pos`. -/
  | binary (left : Expr) (op : BinaryOp) (pos : Position) (right : Expr)
  /-- Nothing: the text could not be read here. -/
  | fault (error : Diagnostic)
  /-- An expression after which the text could not be read on. -/
  | cut (read : Expr) (error : Diagnostic)
deriving Repr, Inhabited

namespace Expr

/-- The place of the first token of the expression. -/
def start : Expr → Position
  | int pos _ => pos
  | literal pos _ => pos
  | var name => name.pos
  | call callee _ => callee.pos
  | assign target _ => target.pos
  | paren pos _ => pos
  | neg pos _ => pos
  | cast value _ _ => value.start
  | binary left _ _ _ => left.start
  | fault error => error.pos
  | cut read _ => read.start

end Expr

end C0Stack
