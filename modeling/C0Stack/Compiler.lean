import C0Stack.CompilationUnit.Code
import C0Stack.CompilationUnit.Parser

/-!
# The compiler

A text is compiled either as a whole program or as a sequence of statements. The result is a program, or the first fault in the
order of the text: a fault of the characters, of the grammar, or of the static rules.
-/

namespace C0Stack

/-- How a text is read: as a program, or as statements in the outermost scope. -/
inductive Mode where
  | program
  | statements
deriving DecidableEq, Repr, Inhabited

/-- The program that the steps assemble from nothing. -/
def Assembling.assemble (m : Assembling Unit) : Except Diagnostic Program :=
  match m.run .empty with
  | .ok (_, a) => .ok a.program
  | .error error => .error error

namespace TokenStream

/-- Compiles the tokens of a whole program. -/
def compileProgram (t : TokenStream) : Except Diagnostic Program :=
  (CompilationUnit.parse t).1.emit.assemble

/-- Compiles the tokens of a sequence of statements. -/
def compileStatements (t : TokenStream) : Except Diagnostic Program :=
  ((Stmt.parseAll t).1.emit .outermost).assemble

end TokenStream

/-- Compiles the text of a source. -/
def compile (mode : Mode) (s : Source) : Except Diagnostic Program :=
  match mode with
  | .program => (TokenStream.ofSource s).compileProgram
  | .statements => (TokenStream.ofSource s).compileStatements

end C0Stack
