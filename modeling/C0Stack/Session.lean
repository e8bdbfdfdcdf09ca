import C0Stack.Compiler

/-!
# Compiling step by step

A session holds the tokens that are left of a text and the code assembled from those before them. It can be moved on by a token, by
an instruction, or by a part of the grammar, and ends by reading what is left as statements.
-/

namespace C0Stack

/-- The tokens that are left, and what has been assembled. -/
structure Session where
  tokens : TokenStream
  assembly : Assembly
deriving DecidableEq, Repr, Inhabited

/-- A step of a session, which may fail. -/
abbrev Step := StateT Session (Except Diagnostic)

namespace Session

/-- A session at the start of a source. -/
def ofSource (s : Source) : Session := ⟨.ofSource s, .empty⟩

/-! ## Tokens -/

/-- The next token, left in place. -/
def peek : Step Token := do
  match (← get).tokens.head with
  | .ok token => return token
  | .error error => throw error

/-- Takes the next token. The token that stands for the end can be taken again and again. -/
def next : Step Token := do
  let token ← peek
  modify fun s => { s with tokens := s.tokens.tail }
  return token

/-- Whether the next token is of the given kind. -/
def check (kind : Token.Kind) : Step Bool := return (← peek).kind == kind

/-- Takes the next token if it is of the given kind. -/
def nextIf (kind : Token.Kind) : Step (Option Token) := do
  if ← check kind then return some (← next) else return none

/-- Fails because the next token is of none of the expected kinds. -/
def refuse {α : Type} (expected : List Token.Kind) : Step α := do
  throw ((← get).tokens.unexpected expected)

/-- Takes the next token, which must be of the given kind. -/
def expect (kind : Token.Kind) : Step Token := do
  match ← nextIf kind with
  | some token => return token
  | none => refuse [kind]

/-- Takes a name. -/
def expectName : Step Ident := return (← expect .name).ident

/-! ## Code -/

/-- Moves the assembly on. -/
def assemble {α : Type} (m : Assembling α) : Step α := do
  match m.run (← get).assembly with
  | .ok (a, assembly) =>
    modify fun s => { s with assembly }
    return a
  | .error error => throw error

/-- Emits an instruction and returns its address. -/
def emit (op : Operation) (operand : Option Nat) (pos : Position) : Step Nat := assemble do
  let address ← Assembling.nextAddress
  Assembling.emit op operand pos
  return address

/-! ## Parts of the grammar -/

/-- Goes on behind what was read. -/
def advance (tokens : TokenStream) : Step Unit := modify fun s => { s with tokens }

/-- Reads a type name. -/
def readType (allowVoid : Bool) : Step Ty := do
  assemble (Assembling.resolveType allowVoid (← expectName))

/-- Reads an expression, emits its code and returns its type. -/
def readExpr : Step Ty := do
  let ⟨e, rest, _⟩ := Expr.parse (← get).tokens
  advance rest
  assemble (e.emit .outermost)

/-- Reads a statement and emits its code. -/
def readStmt : Step Unit := do
  let ⟨s, rest, _⟩ := Stmt.parse (← get).tokens
  advance rest
  assemble (s.emit .outermost)

/-- Reads a block and emits its code. -/
def readBlock : Step Unit := do
  let ⟨s, rest, _⟩ := Stmt.parseBlock (← get).tokens
  advance rest
  assemble (s.emit .outermost)

/-- Reads a declaration and emits its code. -/
def readDecl : Step Unit := do
  let ⟨s, rest, _⟩ := Stmt.parseDecl (← get).tokens
  advance rest
  assemble (s.emit .outermost)

/-- Reads a function definition and emits its code. -/
def readFunction : Step Unit := do
  let ⟨f, rest, _⟩ := Function.parse (← get).tokens
  advance rest
  assemble f.emit

/-- Reads statements up to the end of the text and emits their code. -/
def readSequence : Step Unit := do
  let (s, rest) := Stmt.parseAll (← get).tokens
  advance rest
  assemble (s.emit .outermost)

/-- Reads a whole program and emits its code. -/
def readUnit : Step Unit := do
  let (u, rest) := CompilationUnit.parse (← get).tokens
  advance rest
  assemble u.emit

/-- Reads what is left as statements and returns the program. -/
def finish : Step Program := do
  readSequence
  let _ ← expect .endOfFile
  return (← get).assembly.program

end Session

end C0Stack
