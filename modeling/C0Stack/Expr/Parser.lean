import C0Stack.Expr.Basic
import C0Stack.Token.Stream

/-!
# Reading expressions

The grammar, from the loosest to the tightest level:

* relational: additive operands with `==`, `!=`, `<`, `>`, `<=` or `>=` between them
* additive: multiplicative operands with `+` or `-` between them
* multiplicative: casts with `*` or `/` between them
* cast: a unary expression followed by any number of `as` and a type name
* unary: a primary expression after any number of minus signs
* primary: a literal, a name, a call, an assignment, or an expression in parentheses

Binary operators group to the left. An assignment takes the whole expression after its sign as its value, and may stand only
where an expression starts: as the right operand of an operator, or after a minus sign, it is refused.

Each reader takes at least one token or breaks the stream, and what it leaves is no longer than what it was given, so that the
readers can call each other: the number of tokens falls, or it stays and the level tightens.
-/

namespace C0Stack

namespace Expr

/-- The kinds of token that an operand may start with. -/
def starts : List Token.Kind := [.integer, .name, .openParen, .minus]

/-- The casts behind an expression. -/
def parseCasts (e : Expr) (t : TokenStream) : Parsed Expr t.length :=
  match t with
  | .more first rest =>
    if first.kind = .kwAs then
      match rest.take .name with
      | ⟨.ok ty, t', h⟩ =>
        let ⟨e', t'', h'⟩ := parseCasts (.cast e first.start ty.ident) t'
        ⟨e', t'', by simp; omega⟩
      | ⟨.error error, t', h⟩ => ⟨.cut e error, t', by simp; omega⟩
    else ⟨e, .more first rest, Nat.le_refl _⟩
  | .broken error => ⟨.cut e error, .broken error, Nat.le_refl _⟩
  | .done pos => ⟨e, .done pos, Nat.le_refl _⟩
termination_by t.length
decreasing_by simp; omega

/-- The place of a level in the descent from an expression to its parts. -/
def rank : Precedence → Nat
  | .relational => 8
  | .additive => 6
  | .multiplicative => 4

mutual

/-- An expression. -/
def parse (t : TokenStream) : Parsed Expr (t.length - 1) := parseLevel .relational false t
termination_by 16 * t.length + 9
decreasing_by simp [rank]

/-- Operands with operators of one level between them. `inOperand` says that no assignment may come first. -/
def parseLevel (level : Precedence) (inOperand : Bool) (t : TokenStream) : Parsed Expr (t.length - 1) :=
  let ⟨left, t', h⟩ := parseOperand level inOperand t
  let ⟨e, t'', h'⟩ := parseOperators level left t'
  ⟨e, t'', by omega⟩
termination_by 16 * t.length + rank level
decreasing_by all_goals cases level <;> simp [rank] <;> omega

/-- The operators of one level behind a left operand. -/
def parseOperators (level : Precedence) (left : Expr) (t : TokenStream) : Parsed Expr t.length :=
  match t with
  | .more first rest =>
    match BinaryOp.ofKindAt? level first.kind with
    | some op =>
      let ⟨right, t', h⟩ := parseOperand level true rest
      let ⟨e, t'', h'⟩ := parseOperators level (.binary left op first.start right) t'
      ⟨e, t'', by simp; omega⟩
    | none => ⟨left, .more first rest, Nat.le_refl _⟩
  | t => ⟨left, t, t.length_le_self⟩
termination_by 16 * t.length
decreasing_by
  · rw [TokenStream.length_more]
    cases level <;> (dsimp only [rank]; omega)
  · rw [TokenStream.length_more]
    omega

/-- An operand of the operators of one level. -/
def parseOperand (level : Precedence) (inOperand : Bool) (t : TokenStream) : Parsed Expr (t.length - 1) :=
  match level with
  | .relational => parseLevel .additive inOperand t
  | .additive => parseLevel .multiplicative inOperand t
  | .multiplicative => parseCast inOperand t
termination_by 16 * t.length + rank level - 1
decreasing_by all_goals (dsimp only [rank]; omega)

/-- An operand and the casts behind it. -/
def parseCast (inOperand : Bool) (t : TokenStream) : Parsed Expr (t.length - 1) :=
  let ⟨e, t', h⟩ := parseUnary inOperand t
  let ⟨e', t'', h'⟩ := parseCasts e t'
  ⟨e', t'', by omega⟩
termination_by 16 * t.length + 2

/-- An operand, perhaps after minus signs. -/
def parseUnary (inOperand : Bool) (t : TokenStream) : Parsed Expr (t.length - 1) :=
  match t with
  | .more first rest =>
    if first.kind = .minus then
      let ⟨e, t', h⟩ := parseUnary true rest
      ⟨.neg first.start e, t', TokenStream.length_le_pred_more_of_pred first h⟩
    else
      let ⟨e, t', h⟩ := parsePrimary inOperand first rest
      ⟨e, t', TokenStream.length_le_pred_more first h⟩
  | .done pos =>
    let error : Diagnostic := ⟨.unexpected starts .endOfFile, pos⟩
    ⟨.fault error, .broken error, TokenStream.length_broken_le_done error pos⟩
  | .broken error => ⟨.fault error, .broken error, TokenStream.length_broken_le_broken error⟩
termination_by 16 * t.length + 1
decreasing_by all_goals (rw [TokenStream.length_more]; omega)

/-- The operand that starts with the token `first`. -/
def parsePrimary (inOperand : Bool) (first : Token) (t : TokenStream) : Parsed Expr t.length :=
  match first.kind, first.value with
  | _, .integer n => ⟨.int first.start n, t, t.length_le_self⟩
  | .name, _ => parseName inOperand first.ident t
  | .openParen, _ =>
    let ⟨e, t', h⟩ := parse t
    match t'.take .closeParen with
    | ⟨.ok _, t'', h'⟩ => ⟨.paren first.start e, t'', TokenStream.length_le_of_pred_pred h h'⟩
    | ⟨.error error, t'', h'⟩ => ⟨.cut e error, t'', TokenStream.length_le_of_pred_pred h h'⟩
  | .double, _ => ⟨.literal first.start .double, t, t.length_le_self⟩
  | .string, _ => ⟨.literal first.start .string, t, t.length_le_self⟩
  | kind, _ =>
    let error : Diagnostic := ⟨.unexpected starts kind, first.start⟩
    ⟨.fault error, .broken error, by simp⟩
termination_by 16 * t.length + 15

/-- The operand that starts with a name: a call before an opening parenthesis, an assignment before its sign, and the value of
a variable before anything else. -/
def parseName (inOperand : Bool) (name : Ident) (t : TokenStream) : Parsed Expr t.length :=
  match t with
  | .more first rest =>
    match first.kind with
    | .openParen =>
      let ⟨args, t', h⟩ := parseArguments rest
      ⟨.call name args, t', by simp; omega⟩
    | .assign =>
      if inOperand then
        let error : Diagnostic := ⟨.assignmentAsOperand name.name, name.pos⟩
        ⟨.fault error, .broken error, by simp⟩
      else
        let ⟨e, t', h⟩ := parse rest
        ⟨.assign name e, t', by simp; omega⟩
    | _ => ⟨.var name, .more first rest, Nat.le_refl _⟩
  | .done pos => ⟨.var name, .done pos, Nat.le_refl _⟩
  | .broken error => ⟨.fault error, .broken error, by simp⟩
termination_by 16 * t.length
decreasing_by all_goals (rw [TokenStream.length_more]; omega)

/-- The arguments of a call, from behind the opening parenthesis to the closing one. -/
def parseArguments (t : TokenStream) : Parsed (List Expr) t.length :=
  if t.startsWith .closeParen then ⟨[], t.tail, t.length_tail_le⟩
  else
    let ⟨args, t', h⟩ := parseArgumentList t
    ⟨args, t', TokenStream.length_le_of_pred h⟩
termination_by 16 * t.length + 11

/-- At least one argument, and the closing parenthesis. -/
def parseArgumentList (t : TokenStream) : Parsed (List Expr) (t.length - 1) :=
  let ⟨e, t', h⟩ := parse t
  if hc : t'.startsWith .comma then
    let ⟨args, t'', h'⟩ := parseArgumentList t'.tail
    ⟨e :: args, t'', by have := t'.length_tail_le; omega⟩
  else
    match t'.take .closeParen with
    | ⟨.ok _, t'', h'⟩ => ⟨[e], t'', TokenStream.length_le_pred_of_pred_pred h h'⟩
    | ⟨.error error, t'', h'⟩ => ⟨[e, .fault error], t'', TokenStream.length_le_pred_of_pred_pred h h'⟩
termination_by 16 * t.length + 10
decreasing_by
  · omega
  · have := TokenStream.length_tail_lt hc (by decide)
    omega

end

end Expr

end C0Stack
