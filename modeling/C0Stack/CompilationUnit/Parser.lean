import C0Stack.CompilationUnit.Basic
import C0Stack.Stmt.Parser

/-!
# Reading functions and compilation units

* a function: `fn`, a name, parameters in parentheses, `->`, a type name, and a body in braces
* a parameter: perhaps `const`, a name, a colon and a type name; parameters are separated by commas
* a program: declarations, then functions, then the end of the text
-/

namespace C0Stack

/-- A parameter. -/
def Param.parse (t : TokenStream) : Parsed (Except Diagnostic Param) (t.length - 1) :=
  let constant := t.startsWith .kwConst
  let ⟨name, t₁, h₁⟩ := (if constant then t.tail else t).take .name
  let ⟨_, t₂, h₂⟩ := t₁.take .colon
  let ⟨ty, t₃, h₃⟩ := t₂.take .name
  have hle : (if constant then t.tail else t).length ≤ t.length := by
    split
    · exact t.length_tail_le
    · exact Nat.le_refl _
  match name, ty with
  | .ok name, .ok ty => ⟨.ok ⟨constant, name.ident, ty.ident⟩, t₃, by omega⟩
  | .error error, _ => ⟨.error error, t₃, by omega⟩
  | _, .error error => ⟨.error error, t₃, by omega⟩

namespace Function

/-- At least one parameter. The fault, if there is one, comes after the parameters that were read. -/
def parseParamList (t : TokenStream) : Parsed (List Param) (t.length - 1) :=
  let ⟨param, t₁, h₁⟩ := Param.parse t
  match param with
  | .ok param =>
    if hc : t₁.startsWith .comma then
      let ⟨params, t₂, h₂⟩ := parseParamList t₁.tail
      ⟨param :: params, t₂, by have := t₁.length_tail_le; omega⟩
    else ⟨[param], t₁, h₁⟩
  | .error _ => ⟨[], t₁, h₁⟩
termination_by t.length
decreasing_by
  have := TokenStream.length_tail_lt hc (by decide)
  omega

/-- The parameters, from behind the opening parenthesis to before the closing one. -/
def parseParams (t : TokenStream) : Parsed (List Param) t.length :=
  if t.startsWith .closeParen then ⟨[], t, t.length_le_self⟩
  else
    let ⟨params, t', h⟩ := parseParamList t
    ⟨params, t', TokenStream.length_le_of_pred h⟩

/-- A function definition. -/
def parse (t : TokenStream) : Parsed Function (t.length - 1) :=
  let ⟨keyword, t₁, h₁⟩ := t.take .kwFn
  let ⟨name, t₂, h₂⟩ := t₁.take .name
  let ⟨_, t₃, h₃⟩ := t₂.take .openParen
  let ⟨params, t₄, h₄⟩ := parseParams t₃
  let ⟨_, t₅, h₅⟩ := t₄.take .closeParen
  let ⟨_, t₆, h₆⟩ := t₅.take .arrow
  let ⟨returns, t₇, h₇⟩ := t₆.take .name
  let ⟨brace, t₈, h₈⟩ := t₇.take .openBrace
  match keyword, name, returns, brace with
  | .ok keyword, .ok name, .ok returns, .ok _ =>
    let ⟨(body, close), t₉, h₉⟩ := Stmt.parseBody t₈
    ⟨.defn keyword.start name.ident params returns.ident body close, t₉, by omega⟩
  | .ok keyword, .ok name, .ok returns, .error error =>
    ⟨.defn keyword.start name.ident params returns.ident (.fault error) error.pos, t₈, by omega⟩
  | .ok keyword, .ok _, .error error, _ => ⟨.fault keyword.start params error, t₈, by omega⟩
  | .ok keyword, .error error, _, _ => ⟨.fault keyword.start [] error, t₈, by omega⟩
  | .error error, _, _, _ => ⟨.fault error.pos [] error, t₈, by omega⟩

end Function

namespace CompilationUnit

/-- The declarations at the start of the text. -/
def parseGlobals (t : TokenStream) : Stmt × TokenStream :=
  if _h : t.startsWith .kwLet ∨ t.startsWith .kwConst then
    let ⟨s, t₁, _h₁⟩ := Stmt.parseDecl t
    let (ss, t₂) := parseGlobals t₁
    (.seq s ss, t₂)
  else (.nil, t)
termination_by t.length
decreasing_by
  have : t.tail.length < t.length := by
    rcases _h with h | h
    · exact TokenStream.length_tail_lt h (by decide)
    · exact TokenStream.length_tail_lt h (by decide)
  omega

/-- The functions behind the declarations. -/
def parseFunctions (t : TokenStream) : List Function × TokenStream :=
  if _h : t.startsWith .kwFn then
    let ⟨f, t₁, _h₁⟩ := Function.parse t
    let (fs, t₂) := parseFunctions t₁
    (f :: fs, t₂)
  else ([], t)
termination_by t.length
decreasing_by
  have := TokenStream.length_tail_lt _h (by decide)
  omega

/-- The end of the text. Before the first function another declaration could come as well. -/
def parseEnding (functions : List Function) (t : TokenStream) : Except Diagnostic Position :=
  match t with
  | .done pos => .ok pos
  | t =>
    .error (t.unexpected (if functions.isEmpty then [.kwLet, .kwConst, .kwFn, .endOfFile] else [.kwFn, .endOfFile]))

/-- A whole program text, and the stream behind it. -/
def parse (t : TokenStream) : CompilationUnit × TokenStream :=
  let (globals, t₁) := parseGlobals t
  let (functions, t₂) := parseFunctions t₁
  (⟨globals, functions, parseEnding functions t₂⟩, t₂)

end CompilationUnit

end C0Stack
