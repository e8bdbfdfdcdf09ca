import C0Stack.Expr.Basic

/-!
# Statements

The syntax tree of a statement. A sequence of statements is a statement too: `seq` puts one in front of the others, and `nil` ends
the sequence. As in expressions, a fault stands where the text could not be read on.
-/

namespace C0Stack

/-- A statement, or a sequence of statements. -/
inductive Stmt where
  /-- No statement: the end of a sequence. -/
  | nil
  /-- A statement and those after it. -/
  | seq (first : Stmt) (rest : Stmt)
  /-- A semicolon alone. -/
  | empty
  /-- A declaration of a variable or a constant, whose first word is at `pos`. -/
  | decl (pos : Position) (constant : Bool) (name : Ident) (ty : Ident) (init : Option Expr)
  /-- An expression whose value is dropped. -/
  | expr (value : Expr)
  /-- Statements in braces, with a scope of their own. -/
  | block (body : Stmt)
  /-- A conditional without an alternative. -/
  | ifThen (pos : Position) (condition : Expr) (body : Stmt)
  /-- A conditional with an alternative, which starts with the word at `elsePos`. -/
  | ifElse (pos : Position) (condition : Expr) (body : Stmt) (elsePos : Position) (alternative : Stmt)
  /-- A loop. -/
  | loop (pos : Position) (condition : Expr) (body : Stmt)
  /-- A jump out of the innermost loop. -/
  | leave (pos : Position)
  /-- A jump to the condition of the innermost loop. -/
  | again (pos : Position)
  /-- A return without a value; its semicolon is at `stop`. -/
  | ret (pos : Position) (stop : Position)
  /-- A return of a value. -/
  | retValue (pos : Position) (value : Expr)
  /-- Nothing: the text could not be read here. -/
  | fault (error : Diagnostic)
deriving Repr, Inhabited

end C0Stack
