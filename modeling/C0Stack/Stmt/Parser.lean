import C0Stack.Expr.Parser
import C0Stack.Stmt.Basic

/-!
# Reading statements

* a declaration: `let` or `const`, a name, a colon, a type name, for a constant always and for a variable perhaps `=` and an
  expression, and a semicolon
* `if`, an expression and a block, perhaps followed by `else` and a block or another `if`
* `while`, an expression and a block
* `return` and perhaps an expression, `break`, or `continue`, and a semicolon
* a block: statements in braces
* a semicolon alone, or an expression and a semicolon
-/

namespace C0Stack

namespace Stmt

/-- The statement, and the semicolon behind it. -/
def parseSemicolon (s : Stmt) (t : TokenStream) : Parsed Stmt (t.length - 1) :=
  match t.take .semicolon with
  | ⟨.ok _, t', h⟩ => ⟨s, t', h⟩
  | ⟨.error error, t', h⟩ => ⟨.seq s (.fault error), t', h⟩

/-- The value of a declaration. A constant must have one, a variable may. -/
def parseInit (constant : Bool) (t : TokenStream) : Parsed (Option Expr) t.length :=
  if constant || t.startsWith .assign then
    match t.take .assign with
    | ⟨.ok _, t', h⟩ =>
      let ⟨e, t'', h'⟩ := Expr.parse t'
      ⟨some e, t'', TokenStream.length_le_of_pred_pred h h'⟩
    | ⟨.error error, t', h⟩ => ⟨some (.fault error), t', TokenStream.length_le_of_pred h⟩
  else ⟨none, t, t.length_le_self⟩

/-- The rest of a declaration after its first word. -/
def parseDeclRest (pos : Position) (constant : Bool) (t : TokenStream) : Parsed Stmt t.length :=
  let ⟨name, t₁, h₁⟩ := t.take .name
  let ⟨_, t₂, h₂⟩ := t₁.take .colon
  let ⟨ty, t₃, h₃⟩ := t₂.take .name
  match name, ty with
  | .ok name, .ok ty =>
    let ⟨init, t₄, h₄⟩ := parseInit constant t₃
    let ⟨s, t₅, h₅⟩ := parseSemicolon (.decl pos constant name.ident ty.ident init) t₄
    ⟨s, t₅, by omega⟩
  | .error error, _ => ⟨.fault error, t₃, by omega⟩
  | _, .error error => ⟨.fault error, t₃, by omega⟩

/-- A declaration. -/
def parseDecl (t : TokenStream) : Parsed Stmt (t.length - 1) :=
  match t with
  | .more first rest =>
    match first.kind with
    | .kwLet => parseDeclRest first.start false rest
    | .kwConst => parseDeclRest first.start true rest
    | _ =>
      let error := (TokenStream.more first rest).unexpected [.kwLet, .kwConst]
      ⟨.fault error, .broken error, TokenStream.length_broken_le_more error first rest⟩
  | t =>
    let error := t.unexpected [.kwLet, .kwConst]
    ⟨.fault error, .broken error, TokenStream.length_broken_le_pred error t⟩

/-- The rest of a return after its first word. -/
def parseReturnRest (pos : Position) (t : TokenStream) : Parsed Stmt t.length :=
  match t with
  | .more first rest =>
    if first.kind = .semicolon then ⟨.ret pos first.start, rest, by simp⟩
    else
      let ⟨e, t₁, h₁⟩ := Expr.parse (.more first rest)
      let ⟨s, t₂, h₂⟩ := parseSemicolon (.retValue pos e) t₁
      ⟨s, t₂, by simp at h₁ ⊢; omega⟩
  | t =>
    let ⟨e, t₁, h₁⟩ := Expr.parse t
    let ⟨s, t₂, h₂⟩ := parseSemicolon (.retValue pos e) t₁
    ⟨s, t₂, TokenStream.length_le_of_pred_pred h₁ h₂⟩

/-- An expression and a semicolon. -/
def parseExpr (t : TokenStream) : Parsed Stmt (t.length - 1) :=
  let ⟨e, t₁, h₁⟩ := Expr.parse t
  let ⟨s, t₂, h₂⟩ := parseSemicolon (.expr e) t₁
  ⟨s, t₂, TokenStream.length_le_pred_of_pred_pred h₁ h₂⟩

mutual

/-- A statement. -/
def parse (t : TokenStream) : Parsed Stmt (t.length - 1) :=
  match t with
  | .more first rest =>
    match first.kind with
    | .kwLet => parseDeclRest first.start false rest
    | .kwConst => parseDeclRest first.start true rest
    | .kwIf => parseIfRest first.start rest
    | .kwWhile =>
      let ⟨e, t₁, h₁⟩ := Expr.parse rest
      let ⟨body, t₂, h₂⟩ := parseBlock t₁
      ⟨.loop first.start e body, t₂, by simp; omega⟩
    | .kwReturn => parseReturnRest first.start rest
    | .kwBreak =>
      let ⟨s, t₁, h₁⟩ := parseSemicolon (.leave first.start) rest
      ⟨s, t₁, TokenStream.length_le_pred_more_of_pred first h₁⟩
    | .kwContinue =>
      let ⟨s, t₁, h₁⟩ := parseSemicolon (.again first.start) rest
      ⟨s, t₁, TokenStream.length_le_pred_more_of_pred first h₁⟩
    | .openBrace =>
      let ⟨(body, _), t₁, h₁⟩ := parseBody rest
      ⟨.block body, t₁, TokenStream.length_le_pred_more first h₁⟩
    | .semicolon => ⟨.empty, rest, TokenStream.length_rest_le first rest⟩
    | _ => parseExpr (.more first rest)
  | t => parseExpr t
termination_by 8 * t.length + 1
decreasing_by all_goals (rw [TokenStream.length_more]; omega)

/-- The rest of a conditional after its first word. -/
def parseIfRest (pos : Position) (t : TokenStream) : Parsed Stmt t.length :=
  let ⟨e, t₁, h₁⟩ := Expr.parse t
  let ⟨body, t₂, h₂⟩ := parseBlock t₁
  match t₂, h₂ with
  | .more first rest, h₂ =>
    if first.kind = .kwElse then
      let ⟨other, t₃, h₃⟩ := parseElse rest
      ⟨.ifElse pos e body first.start other, t₃, by simp at h₂; omega⟩
    else ⟨.ifThen pos e body, .more first rest, by omega⟩
  | .done pos', h₂ => ⟨.ifThen pos e body, .done pos', by simp⟩
  | .broken error, h₂ => ⟨.seq (.ifThen pos e body) (.fault error), .broken error, by simp⟩
termination_by 8 * t.length + 5
decreasing_by
  · omega
  · rw [TokenStream.length_more] at h₂
    omega

/-- The alternative of a conditional: a block or another conditional. -/
def parseElse (t : TokenStream) : Parsed Stmt t.length :=
  match t with
  | .more first rest =>
    match first.kind with
    | .kwIf =>
      let ⟨s, t₁, h₁⟩ := parseIfRest first.start rest
      ⟨s, t₁, TokenStream.length_le_more first h₁⟩
    | .openBrace =>
      let ⟨(body, _), t₁, h₁⟩ := parseBody rest
      ⟨.block body, t₁, TokenStream.length_le_more first h₁⟩
    | _ =>
      let error := (TokenStream.more first rest).unexpected [.openBrace, .kwIf]
      ⟨.fault error, .broken error, by simp⟩
  | t =>
    let error := t.unexpected [.openBrace, .kwIf]
    ⟨.fault error, .broken error, TokenStream.length_broken_le error t⟩
termination_by 8 * t.length
decreasing_by all_goals (rw [TokenStream.length_more]; omega)

/-- A block. -/
def parseBlock (t : TokenStream) : Parsed Stmt (t.length - 1) :=
  match t.take .openBrace with
  | ⟨.ok _, t₁, h₁⟩ =>
    let ⟨(body, _), t₂, h₂⟩ := parseBody t₁
    ⟨.block body, t₂, TokenStream.length_le_pred_of_pred_le h₁ h₂⟩
  | ⟨.error error, t₁, h₁⟩ => ⟨.fault error, t₁, h₁⟩
termination_by 8 * t.length + 4

/-- The statements of a block and the closing brace, whose place is returned. -/
def parseBody (t : TokenStream) : Parsed (Stmt × Position) t.length :=
  let ⟨body, t₁, h₁⟩ := parseStmts t
  match t₁.take .closeBrace with
  | ⟨.ok close, t₂, h₂⟩ => ⟨(body, close.start), t₂, by omega⟩
  | ⟨.error error, t₂, h₂⟩ => ⟨(.seq body (.fault error), error.pos), t₂, by omega⟩
termination_by 8 * t.length + 3

/-- Statements up to a closing brace or the end of the text. -/
def parseStmts (t : TokenStream) : Parsed Stmt t.length :=
  match t with
  | .more first rest =>
    if first.kind = .closeBrace then ⟨.nil, .more first rest, Nat.le_refl _⟩
    else
      let ⟨s, t₁, h₁⟩ := parse (.more first rest)
      let ⟨ss, t₂, h₂⟩ := parseStmts t₁
      ⟨.seq s ss, t₂, by simp at h₁ ⊢; omega⟩
  | t => ⟨.nil, t, t.length_le_self⟩
termination_by 8 * t.length + 2
decreasing_by
  · omega
  · rw [TokenStream.length_more] at h₁ ⊢
    omega

end

/-- Statements up to the end of the text. -/
def parseAll (t : TokenStream) : Stmt × TokenStream :=
  match t with
  | .done pos => (.nil, .done pos)
  | .broken error => (.fault error, .broken error)
  | .more first rest =>
    let ⟨s, t₁, _h⟩ := parse (.more first rest)
    let (ss, t₂) := parseAll t₁
    (.seq s ss, t₂)
termination_by t.length
decreasing_by simp at _h ⊢; omega

end Stmt

end C0Stack
