import C0Stack.Position
import C0Stack.Ty
import C0Stack.Token.Kind

/-!
# Diagnostics

Why a source text is refused, and where. A lexical fault is found while the text is cut into tokens; every other cause is found
while the tokens are read and checked.
-/

namespace C0Stack

/-- Why no token could be cut from the text. -/
inductive LexFault where
  | invalidCharacter (c : Char)
  | incompleteOperator (c : Char)
  | integerOverflow (text : String)
  | malformedDouble (text : String)
  | unterminatedString
  | unreadable (reason : String)
deriving DecidableEq, Repr, Inhabited

/-- A lexical fault and its place. -/
structure LexError where
  fault : LexFault
  pos : Position
deriving DecidableEq, Repr, Inhabited

/-- Why a source text is refused. -/
inductive Cause where
  | lexical (fault : LexFault)
  | unexpected (expected : List Token.Kind) (found : Token.Kind)
  | duplicate (name : String)
  | undeclared (name : String)
  | uninitialized (name : String)
  | constantTarget (name : String)
  | invalidType (name : String)
  | notFunction (name : String)
  | functionAsValue (name : String)
  | argumentCount (function : String) (expected got : Nat)
  | typeMismatch (expected found : Ty)
  | unsupportedLiteral (kind : Token.Kind)
  | outsideLoop (keyword : Token.Kind)
  | assignmentAsOperand (name : String)
deriving DecidableEq, Repr, Inhabited

/-- A cause and its place. -/
structure Diagnostic where
  cause : Cause
  pos : Position
deriving DecidableEq, Repr, Inhabited

namespace LexFault

/-- What the fault is, in words. -/
def message : LexFault → String
  | invalidCharacter c => "Unexpected character: '" ++ c.toString ++ "'"
  | incompleteOperator c => "'" ++ c.toString ++ "' must be followed by '='"
  | integerOverflow text => "Integer literal out of range: " ++ text
  | malformedDouble text => "Malformed double literal: " ++ text
  | unterminatedString => "Unterminated string literal"
  | unreadable reason => "Read failed: " ++ reason

end LexFault

/-- A place, in words. -/
def Position.describe (p : Position) : String :=
  "line " ++ toString p.line ++ ", column " ++ toString p.column

namespace LexError

/-- The fault and its place, in words. -/
def message (e : LexError) : String := "Lexer error at " ++ e.pos.describe ++ ": " ++ e.fault.message

/-- The lexical fault as a reason to refuse the text. -/
def toDiagnostic (e : LexError) : Diagnostic := ⟨.lexical e.fault, e.pos⟩

end LexError

namespace Cause

/-- The kinds that were expected, in words: a single one stands alone. -/
def describeExpected : List Token.Kind → String
  | [k] => k.describe
  | ks => "one of " ++ ", ".intercalate (ks.map Token.Kind.describe)

/-- What the cause is, in words. -/
def message : Cause → String
  | lexical fault => fault.message
  | unexpected expected found => "Expected " ++ describeExpected expected ++ ", found " ++ found.describe
  | duplicate name => "'" ++ name ++ "' is already declared in this scope"
  | undeclared name => "'" ++ name ++ "' is not declared"
  | uninitialized name => "Read from uninitialized variable '" ++ name ++ "'"
  | constantTarget name => "Cannot assign to constant '" ++ name ++ "'"
  | invalidType name => "'" ++ name ++ "' is not a valid variable type"
  | notFunction name => "'" ++ name ++ "' is not a function"
  | functionAsValue name => "Function '" ++ name ++ "' cannot be used as a value"
  | argumentCount function expected got =>
    "Function '" ++ function ++ "' expects " ++ toString expected ++ (if expected = 1 then " argument" else " arguments") ++
      ", got " ++ toString got
  | typeMismatch expected found => "Type error: expected " ++ expected.name ++ ", got " ++ found.name
  | unsupportedLiteral kind => "Unsupported " ++ kind.describe ++ " in expression"
  | outsideLoop keyword => keyword.describe ++ " outside of a loop"
  | assignmentAsOperand name => "Assignment to '" ++ name ++ "' cannot be used as an operand"

end Cause

namespace Diagnostic

/-- The cause and its place, in words. A lexical fault is announced as such. -/
def message (d : Diagnostic) : String :=
  match d.cause with
  | .lexical fault => LexError.message ⟨fault, d.pos⟩
  | cause => "Compile error at " ++ d.pos.describe ++ ": " ++ cause.message

end Diagnostic

end C0Stack
