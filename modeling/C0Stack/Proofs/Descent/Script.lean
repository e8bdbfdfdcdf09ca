import C0Stack.CompilationUnit.Parser

/-!
# Readers as scripts

The readers of the grammar call each other. Here each of them is a routine (`Routine`) with a script, which says step by step what it
does: it looks at the next token, goes past it, breaks the stream, or calls a routine, which may be itself. A script sees no more of the
text than the token that comes next, and it has no loops: to go round once more is a call.
-/

namespace C0Stack

/-! ## Routines -/

/-- The readers, with what they are given besides the stream. -/
inductive Routine where
  | expr
  | level (level : Precedence) (inOperand : Bool)
  | operand (level : Precedence) (inOperand : Bool)
  | operators (level : Precedence) (left : Expr)
  | cast (inOperand : Bool)
  | casts (e : Expr)
  | unary (inOperand : Bool)
  | primary (inOperand : Bool)
  | name (inOperand : Bool) (name : Ident)
  | arguments
  | argumentList
  | init (constant : Bool)
  | declRest (pos : Position) (constant : Bool)
  | decl
  | returnRest (pos : Position)
  | exprStmt
  | stmt
  | ifRest (pos : Position)
  | alternative
  | block
  | body
  | stmts
  | all
  | param
  | paramList
  | params
  | function
  | globals
  | functions
  | unit

/-- What the routine gives back besides the stream. -/
@[reducible] def Routine.Result : Routine → Type
  | expr | level .. | operand .. | operators .. | cast _ | casts _ | unary _ | primary _ | name .. => Expr
  | arguments | argumentList => List Expr
  | init _ => Option Expr
  | declRest .. | decl | returnRest _ | exprStmt | stmt | ifRest _ | alternative | block | stmts | all | globals => Stmt
  | body => Stmt × Position
  | param => Except Diagnostic Param
  | paramList | params => List Param
  | function => Function
  | functions => List Function
  | unit => CompilationUnit

/-! ## Scripts -/

/-- What a look at a stream shows: the next token, the end, or the fault that broke it. -/
inductive Sight where
  | token (t : Token)
  | ended (pos : Position)
  | broken (error : Diagnostic)

namespace Sight

/-- The kind of the token that is in sight. -/
def kind? : Sight → Option Token.Kind
  | token t => some t.kind
  | ended _ => some .endOfFile
  | broken _ => none

/-- The fault that none of the expected kinds is in sight. -/
def unexpected (expected : List Token.Kind) : Sight → Diagnostic
  | token t => ⟨.unexpected expected t.kind, t.start⟩
  | ended pos => ⟨.unexpected expected .endOfFile, pos⟩
  | broken error => error

/-- Whether the text has ended behind these functions. -/
def ending (functions : List Function) : Sight → Except Diagnostic Position
  | ended pos => .ok pos
  | s => .error (s.unexpected (if functions.isEmpty then [.kwLet, .kwConst, .kwFn, .endOfFile] else [.kwFn, .endOfFile]))

end Sight

def TokenStream.sight : TokenStream → Sight
  | more first _ => .token first
  | done pos => .ended pos
  | broken error => .broken error

/-- The steps that lead to a result. -/
inductive Script (α : Type) where
  /-- The result is there. -/
  | answer (value : α)
  /-- Goes on with what is in sight. -/
  | look (next : Sight → Script α)
  /-- Goes past the next token. -/
  | skip (next : Script α)
  /-- Breaks the stream. -/
  | spoil (error : Diagnostic) (next : Script α)
  /-- Calls the routine and goes on with what it gives back. -/
  | call (r : Routine) (next : r.Result → Script α)

namespace Script

/-- One script after the other. -/
def bind {α β : Type} (f : α → Script β) : Script α → Script β
  | answer x => f x
  | look next => look fun s => bind f (next s)
  | skip next => skip (bind f next)
  | spoil error next => spoil error (bind f next)
  | call r next => call r fun x => bind f (next x)

instance : Monad Script where
  pure := answer
  bind x f := bind f x

/-- What is in sight. -/
def sight : Script Sight := look answer

/-- Goes past the next token. -/
def advance : Script Unit := skip (answer ())

/-- Breaks the stream, because none of the expected kinds is in sight. -/
def refuse (expected : List Token.Kind) : Script Diagnostic :=
  look fun s => spoil (s.unexpected expected) (answer (s.unexpected expected))

/-- Breaks the stream. -/
def stop (error : Diagnostic) : Script Diagnostic := spoil error (answer error)

/-- Calls the routine. -/
def perform (r : Routine) : Script r.Result := call r answer

/-- Takes a token of the given kind. If another one comes next, the stream breaks. -/
def take (kind : Token.Kind) : Script (Except Diagnostic Token) := do
  match ← sight with
  | .token first =>
    if first.kind = kind then
      advance
      return .ok first
    else return .error (← refuse [kind])
  | .ended pos =>
    if kind = .endOfFile then return .ok (Token.endAt pos)
    else return .error (← refuse [kind])
  | .broken error => return .error error

/-- The statement, and the semicolon behind it. -/
def semicolon (s : Stmt) : Script Stmt := do
  match ← take .semicolon with
  | .ok _ => return s
  | .error error => return .seq s (.fault error)

/-- A name, a colon and the name of a type. -/
def typed : Script (Except Diagnostic (Token × Token)) := do
  let name ← take .name
  let _ ← take .colon
  let ty ← take .name
  match name, ty with
  | .ok name, .ok ty => return .ok (name, ty)
  | .error error, _ => return .error error
  | _, .error error => return .error error

end Script

/-! ## The scripts of the routines -/

namespace Routine

open Script

/-- What the routine does. -/
def script : (r : Routine) → Script r.Result
  | expr => perform (level .relational false)
  | level l b => do
    let left ← perform (operand l b)
    perform (operators l left)
  | operand .relational b => perform (level .additive b)
  | operand .additive b => perform (level .multiplicative b)
  | operand .multiplicative b => perform (cast b)
  | operators l left => do
    match ← sight with
    | .token first =>
      match BinaryOp.ofKindAt? l first.kind with
      | some op =>
        advance
        let right ← perform (operand l true)
        perform (operators l (.binary left op first.start right))
      | none => return left
    | _ => return left
  | cast b => do
    let e ← perform (unary b)
    perform (casts e)
  | casts e => do
    match ← sight with
    | .token first =>
      if first.kind = .kwAs then
        advance
        match ← take .name with
        | .ok ty => perform (casts (.cast e first.start ty.ident))
        | .error error => return .cut e error
      else return e
    | .ended _ => return e
    | .broken error => return .cut e error
  | unary b => do
    match ← sight with
    | .token first =>
      if first.kind = .minus then
        advance
        return .neg first.start (← perform (unary true))
      else perform (primary b)
    | _ => perform (primary b)
  | primary b => do
    match ← sight with
    | .token first =>
      advance
      match first.kind, first.value with
      | _, .integer n => return .int first.start n
      | .name, _ => perform (name b first.ident)
      | .openParen, _ =>
        let e ← perform expr
        match ← take .closeParen with
        | .ok _ => return .paren first.start e
        | .error error => return .cut e error
      | .double, _ => return .literal first.start .double
      | .string, _ => return .literal first.start .string
      | kind, _ => return .fault (← stop ⟨.unexpected Expr.starts kind, first.start⟩)
    | _ => return .fault (← refuse Expr.starts)
  | name b x => do
    match ← sight with
    | .token first =>
      match first.kind with
      | .openParen =>
        advance
        return .call x (← perform arguments)
      | .assign =>
        if b then return .fault (← stop ⟨.assignmentAsOperand x.name, x.pos⟩)
        else
          advance
          return .assign x (← perform expr)
      | _ => return .var x
    | .ended _ => return .var x
    | .broken error => return .fault error
  | arguments => do
    if (← sight).kind? = some .closeParen then
      advance
      return []
    else perform argumentList
  | argumentList => do
    let e ← perform expr
    if (← sight).kind? = some .comma then
      advance
      return e :: (← perform argumentList)
    else
      match ← take .closeParen with
      | .ok _ => return [e]
      | .error error => return [e, .fault error]
  | init constant => do
    if constant = true ∨ (← sight).kind? = some .assign then
      match ← take .assign with
      | .ok _ => return some (← perform expr)
      | .error error => return some (.fault error)
    else return none
  | declRest pos constant => do
    match ← typed with
    | .ok (x, ty) =>
      let value ← perform (init constant)
      semicolon (.decl pos constant x.ident ty.ident value)
    | .error error => return .fault error
  | decl => do
    match ← sight with
    | .token first =>
      match first.kind with
      | .kwLet =>
        advance
        perform (declRest first.start false)
      | .kwConst =>
        advance
        perform (declRest first.start true)
      | _ => return .fault (← refuse [.kwLet, .kwConst])
    | _ => return .fault (← refuse [.kwLet, .kwConst])
  | returnRest pos => do
    match ← sight with
    | .token first =>
      if first.kind = .semicolon then
        advance
        return .ret pos first.start
      else semicolon (.retValue pos (← perform expr))
    | _ => semicolon (.retValue pos (← perform expr))
  | exprStmt => do
    semicolon (.expr (← perform expr))
  | stmt => do
    match ← sight with
    | .token first =>
      match first.kind with
      | .kwLet =>
        advance
        perform (declRest first.start false)
      | .kwConst =>
        advance
        perform (declRest first.start true)
      | .kwIf =>
        advance
        perform (ifRest first.start)
      | .kwWhile =>
        advance
        let e ← perform expr
        return .loop first.start e (← perform block)
      | .kwReturn =>
        advance
        perform (returnRest first.start)
      | .kwBreak =>
        advance
        semicolon (.leave first.start)
      | .kwContinue =>
        advance
        semicolon (.again first.start)
      | .openBrace =>
        advance
        return .block (← perform body).1
      | .semicolon =>
        advance
        return .empty
      | _ => perform exprStmt
    | _ => perform exprStmt
  | ifRest pos => do
    let e ← perform expr
    let body ← perform block
    match ← sight with
    | .token first =>
      if first.kind = .kwElse then
        advance
        return .ifElse pos e body first.start (← perform alternative)
      else return .ifThen pos e body
    | .ended _ => return .ifThen pos e body
    | .broken error => return .seq (.ifThen pos e body) (.fault error)
  | alternative => do
    match ← sight with
    | .token first =>
      match first.kind with
      | .kwIf =>
        advance
        perform (ifRest first.start)
      | .openBrace =>
        advance
        return .block (← perform body).1
      | _ => return .fault (← refuse [.openBrace, .kwIf])
    | _ => return .fault (← refuse [.openBrace, .kwIf])
  | block => do
    match ← take .openBrace with
    | .ok _ => return .block (← perform body).1
    | .error error => return .fault error
  | body => do
    let statements ← perform stmts
    match ← take .closeBrace with
    | .ok close => return (statements, close.start)
    | .error error => return (.seq statements (.fault error), error.pos)
  | stmts => do
    match ← sight with
    | .token first =>
      if first.kind = .closeBrace then return .nil
      else
        let s ← perform stmt
        return .seq s (← perform stmts)
    | _ => return .nil
  | all => do
    match ← sight with
    | .token _ =>
      let s ← perform stmt
      return .seq s (← perform all)
    | .ended _ => return .nil
    | .broken error => return .fault error
  | param => do
    let constant := decide ((← sight).kind? = some .kwConst)
    if constant then advance
    match ← typed with
    | .ok (x, ty) => return .ok ⟨constant, x.ident, ty.ident⟩
    | .error error => return .error error
  | paramList => do
    match ← perform param with
    | .ok p =>
      if (← sight).kind? = some .comma then
        advance
        return p :: (← perform paramList)
      else return [p]
    | .error _ => return []
  | params => do
    if (← sight).kind? = some .closeParen then return []
    else perform paramList
  | function => do
    let keyword ← take .kwFn
    let name ← take .name
    let _ ← take .openParen
    let ps ← perform params
    let _ ← take .closeParen
    let _ ← take .arrow
    let returns ← take .name
    let brace ← take .openBrace
    match keyword, name, returns, brace with
    | .ok keyword, .ok name, .ok returns, .ok _ =>
      let (statements, close) ← perform body
      return .defn keyword.start name.ident ps returns.ident statements close
    | .ok keyword, .ok name, .ok returns, .error error =>
      return .defn keyword.start name.ident ps returns.ident (.fault error) error.pos
    | .ok keyword, .ok _, .error error, _ => return .fault keyword.start ps error
    | .ok keyword, .error error, _, _ => return .fault keyword.start [] error
    | .error error, _, _, _ => return .fault error.pos [] error
  | globals => do
    let kind := (← sight).kind?
    if kind = some .kwLet ∨ kind = some .kwConst then
      let s ← perform decl
      return .seq s (← perform globals)
    else return .nil
  | functions => do
    if (← sight).kind? = some .kwFn then
      let f ← perform function
      return f :: (← perform functions)
    else return []
  | unit => do
    let declarations ← perform globals
    let definitions ← perform functions
    return ⟨declarations, definitions, (← sight).ending definitions⟩

end Routine

end C0Stack
