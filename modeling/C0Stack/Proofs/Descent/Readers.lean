import C0Stack.Proofs.Descent.Script
import C0Stack.Proofs.Grammar.CompilationUnit

/-!
# The readers follow their scripts

`Routine.run` is the reader that a routine stands for, and `Script.run` follows a script, with the readers in place of the routines that
it calls. Both give the same (`Routine.run_script`), so what is said of a script is said of the reader.
-/

namespace C0Stack

/-- What the routine reads from the stream, and the stream behind it. -/
def Routine.run : (r : Routine) → TokenStream → r.Result × TokenStream
  | expr, t => (Expr.parse t).pair
  | level l b, t => (Expr.parseLevel l b t).pair
  | operand l b, t => (Expr.parseOperand l b t).pair
  | operators l left, t => (Expr.parseOperators l left t).pair
  | cast b, t => (Expr.parseCast b t).pair
  | casts e, t => (Expr.parseCasts e t).pair
  | unary b, t => (Expr.parseUnary b t).pair
  | primary b, .more first rest => (Expr.parsePrimary b first rest).pair
  | primary _, t => (.fault (t.unexpected Expr.starts), .broken (t.unexpected Expr.starts))
  | name b x, t => (Expr.parseName b x t).pair
  | arguments, t => (Expr.parseArguments t).pair
  | argumentList, t => (Expr.parseArgumentList t).pair
  | init constant, t => (Stmt.parseInit constant t).pair
  | declRest pos constant, t => (Stmt.parseDeclRest pos constant t).pair
  | decl, t => (Stmt.parseDecl t).pair
  | returnRest pos, t => (Stmt.parseReturnRest pos t).pair
  | exprStmt, t => (Stmt.parseExpr t).pair
  | stmt, t => (Stmt.parse t).pair
  | ifRest pos, t => (Stmt.parseIfRest pos t).pair
  | alternative, t => (Stmt.parseElse t).pair
  | block, t => (Stmt.parseBlock t).pair
  | body, t => (Stmt.parseBody t).pair
  | stmts, t => (Stmt.parseStmts t).pair
  | all, t => Stmt.parseAll t
  | param, t => (Param.parse t).pair
  | paramList, t => (Function.parseParamList t).pair
  | params, t => (Function.parseParams t).pair
  | function, t => (Function.parse t).pair
  | globals, t => CompilationUnit.parseGlobals t
  | functions, t => CompilationUnit.parseFunctions t
  | unit, t => CompilationUnit.parse t

namespace Script

/-- What the script leads to, and the stream behind it. -/
def run {α : Type} : Script α → TokenStream → α × TokenStream
  | answer x, t => (x, t)
  | look next, t => (next t.sight).run t
  | skip next, t => next.run t.tail
  | spoil error next, _ => next.run (.broken error)
  | call r next, t => (next (r.run t).1).run (r.run t).2

section

variable {α β : Type} {t : TokenStream}

/-- One script after another. -/
@[simp] theorem run_bind (x : Script α) (f : α → Script β) : (x >>= f).run t = (f (x.run t).1).run (x.run t).2 := by
  change (bind f x).run t = _
  induction x generalizing t with
  | answer x => rfl
  | look next ih => exact ih _
  | skip next ih => exact ih
  | spoil error next ih => exact ih
  | call r next ih => exact ih _

@[simp] theorem run_pure (x : α) : (pure x : Script α).run t = (x, t) := rfl

@[simp] theorem run_sight : sight.run t = (t.sight, t) := rfl

@[simp] theorem run_advance : advance.run t = ((), t.tail) := rfl

/-- What is seen is enough to say what was expected instead. -/
theorem unexpected_sight (expected : List Token.Kind) (t : TokenStream) : t.sight.unexpected expected = t.unexpected expected := by
  cases t <;> rfl

@[simp] theorem run_refuse (expected : List Token.Kind) :
    (refuse expected).run t = (t.unexpected expected, .broken (t.unexpected expected)) := by
  rw [← unexpected_sight]
  rfl

/-- What is seen shows the kind of the next token. -/
theorem kind?_sight (t : TokenStream) : t.sight.kind? = t.nextKind? := by
  cases t <;> rfl

/-- What is seen is enough to say whether the text has ended. -/
theorem ending_sight (functions : List Function) (t : TokenStream) :
    t.sight.ending functions = CompilationUnit.parseEnding functions t := by
  cases t <;> rfl

/-- The script that takes a token does. -/
@[simp] theorem run_take (kind : Token.Kind) : (take kind).run t = (t.take kind).pair := by
  unfold take TokenStream.take
  rw [run_bind, run_sight]
  cases t with
  | more first rest =>
    by_cases hkind : first.kind = kind
    · simp only [TokenStream.sight, hkind, if_true]
      rfl
    · simp only [TokenStream.sight, hkind, if_false]
      rfl
  | done pos =>
    by_cases hkind : kind = .endOfFile
    · simp only [TokenStream.sight, hkind, if_true]
      rfl
    · simp only [TokenStream.sight, hkind, if_false]
      rfl
  | broken error => rfl

/-- The script that takes the semicolon behind a statement does. -/
@[simp] theorem run_semicolon (s : Stmt) : (semicolon s).run t = (Stmt.parseSemicolon s t).pair := by
  unfold semicolon Stmt.parseSemicolon
  rw [run_bind, run_take]
  rcases t.take .semicolon with ⟨_ | _, rest, _⟩ <;> rfl

/-- The script that takes a name and a type does. -/
@[simp] theorem run_typed : typed.run t = t.takeTyped := by
  unfold typed TokenStream.takeTyped
  simp only [run_bind, run_take]
  generalize (TokenStream.take .name t).pair = x
  generalize (TokenStream.take .name (TokenStream.take .colon x.2).pair.2).pair = ty
  rcases x with ⟨_ | x, t₁⟩ <;> rcases ty with ⟨_ | ty, t₃⟩ <;> rfl

end

end Script

namespace Routine

open Script

-- the equations of these are made here, once for all of the proofs that unfold them
attribute [local simp] script run Script.run perform TokenStream.sight TokenStream.tail

section

variable (t : TokenStream)

/-- An expression is the loosest level. -/
theorem run_script_expr : expr.script.run t = expr.run t := by
  simp only [script, run]
  exact Expr.pair_parse.symm

/-- A level is an operand and the loop of operators behind it. -/
theorem run_script_level (l : Precedence) (b : Bool) : (level l b).script.run t = (level l b).run t := by
  simp only [script, run_bind, run]
  exact Expr.pair_parseLevel.symm

/-- An operand is a level one tighter, or a cast. -/
theorem run_script_operand (l : Precedence) (b : Bool) : (operand l b).script.run t = (operand l b).run t := by
  simp only [run]
  rw [Expr.parseOperand.eq_def]
  cases l <;> rfl

/-- The loop of operators takes an operator of its level and an operand, and goes round. -/
theorem run_script_operators (l : Precedence) (left : Expr) : (operators l left).script.run t = (operators l left).run t := by
  simp only [run]
  rw [Expr.parseOperators.eq_def]
  cases t with
  | more first rest =>
    simp only [script, run_bind, run_sight, TokenStream.sight]
    cases BinaryOp.ofKindAt? l first.kind <;> rfl
  | done | broken => rfl

/-- A cast is a unary expression and the loop of casts behind it. -/
theorem run_script_cast (b : Bool) : (cast b).script.run t = (cast b).run t := by
  simp only [script, run_bind, run]
  exact Expr.pair_parseCast.symm

/-- The loop of casts takes `as` and a name, and goes round. -/
theorem run_script_casts (e : Expr) : (casts e).script.run t = (casts e).run t := by
  simp only [run]
  rw [Expr.parseCasts.eq_def]
  cases t with
  | more first rest =>
    simp only [script, run_bind, run_sight, TokenStream.sight]
    by_cases hfirst : first.kind = .kwAs
    · simp only [hfirst, if_true, run_bind, run_advance, TokenStream.tail, run_take]
      rcases rest.take .name with ⟨_ | _, rest', _⟩ <;> rfl
    · simp only [hfirst, if_false]
      rfl
  | done | broken => rfl

/-- A unary expression is a minus sign and another one, or a primary expression. -/
theorem run_script_unary (b : Bool) : (unary b).script.run t = (unary b).run t := by
  simp only [run]
  rw [Expr.parseUnary.eq_def]
  cases t with
  | more first rest =>
    simp only [script, run_bind, run_sight, TokenStream.sight]
    by_cases hfirst : first.kind = .minus
    · simp only [hfirst, if_true]
      rfl
    · simp only [hfirst, if_false]
      rfl
  | done | broken => rfl

/-- A primary expression is told by its first token. -/
theorem run_script_primary (b : Bool) : (primary b).script.run t = (primary b).run t := by
  cases t with
  | more first rest =>
    simp only [script, run_bind, run_sight, TokenStream.sight, run_advance, TokenStream.tail, run]
    split
    case h_1 hvalue => exact (Expr.pair_parsePrimary_integer hvalue).symm
    case h_2 hkind hvalue => exact (Expr.pair_parsePrimary_name hkind hvalue).symm
    case h_3 hkind hvalue =>
      simp only [run_bind, run_take, perform, Script.run, run]
      rcases hclose : (TokenStream.take .closeParen (Expr.parse rest).pair.2).pair with ⟨error | close, rest'⟩
      · exact (Expr.pair_parsePrimary_cut hkind hvalue hclose).symm
      · exact (Expr.pair_parsePrimary_openParen hkind hvalue hclose).symm
    case h_4 hkind hvalue => exact (Expr.pair_parsePrimary_double hkind hvalue).symm
    case h_5 hkind hvalue => exact (Expr.pair_parsePrimary_string hkind hvalue).symm
    case h_6 hname hparen hdouble hstring hvalue =>
      refine (Expr.pair_parsePrimary_fault ?_ hvalue).symm
      simpa using ⟨hname, hparen, hdouble, hstring⟩
  | done | broken => rfl

/-- A name is told by the token behind it. -/
theorem run_script_name (b : Bool) (x : Ident) : (name b x).script.run t = (name b x).run t := by
  cases t with
  | more first rest =>
    simp only [script, run_bind, run_sight, TokenStream.sight, run]
    split
    case h_1 hkind => exact (Expr.pair_parseName_call hkind).symm
    case h_2 hkind =>
      cases b with
      | false => exact (Expr.pair_parseName_assign hkind).symm
      | true => exact (Expr.pair_parseName_fault hkind x rest).symm
    case h_3 hcall hassign => exact (Expr.pair_parseName_var rfl ⟨hcall, hassign⟩).symm
  | done | broken =>
    simp only [run]
    rw [Expr.parseName.eq_def]
    rfl

/-- The arguments of a call are none or a list. -/
theorem run_script_arguments : arguments.script.run t = arguments.run t := by
  simp only [script, run_bind, run_sight, kind?_sight, run]
  split
  case isTrue h =>
    cases t with
    | more first rest => exact (Expr.pair_parseArguments_none (Option.some.inj h)).symm
    | done | broken => cases h
  case isFalse h => exact (Expr.pair_parseArguments_some h).symm

/-- The list of arguments goes on behind a comma. -/
theorem run_script_argumentList : argumentList.script.run t = argumentList.run t := by
  simp only [script, run_bind, run_sight, kind?_sight, perform, Script.run, run]
  split
  case isTrue h =>
    cases hrest : (Expr.parse t).pair.2 with
    | more first rest =>
      rw [hrest] at h
      exact (Expr.pair_parseArgumentList_cons hrest (Option.some.inj h)).symm
    | done | broken =>
      rw [hrest] at h
      cases h
  case isFalse h =>
    rw [run_bind, run_take]
    rcases hclose : (TokenStream.take .closeParen (Expr.parse t).pair.2).pair with ⟨error | close, rest'⟩
    · exact (Expr.pair_parseArgumentList_cut h hclose).symm
    · exact (Expr.pair_parseArgumentList_one h hclose).symm

/-- An initial value comes behind an assignment sign. -/
theorem run_script_init (constant : Bool) : (init constant).script.run t = (init constant).run t := by
  simp only [script, run_bind, run_sight, kind?_sight, run]
  unfold Stmt.parseInit
  simp only [TokenStream.startsWith_eq, Bool.or_eq_true, beq_iff_eq]
  split
  case isTrue =>
    rw [run_bind, run_take]
    rcases t.take .assign with ⟨_ | _, rest, _⟩ <;> rfl
  case isFalse => rfl

/-- A declaration is a name and a type, an initial value and a semicolon. -/
theorem run_script_declRest (pos : Position) (constant : Bool) :
    (declRest pos constant).script.run t = (declRest pos constant).run t := by
  simp only [script, run_bind, run_typed, run, Stmt.pair_parseDeclRest]
  rcases t.takeTyped with ⟨error | ⟨x, ty⟩, rest⟩
  · rfl
  · simp only [run_bind, run_semicolon, perform, Script.run, run]

/-- A declaration starts with one of two words. -/
theorem run_script_decl : decl.script.run t = decl.run t := by
  cases t with
  | more first rest =>
    simp only [script, run_bind, run_sight, TokenStream.sight, run]
    split
    case h_1 h => exact (Stmt.pair_parseDecl (show Grammar.declares? first.kind = some false by rw [h]; rfl)).symm
    case h_2 h => exact (Stmt.pair_parseDecl (show Grammar.declares? first.kind = some true by rw [h]; rfl)).symm
    case h_3 hlet hconst =>
      rw [run_bind, run_refuse, Stmt.parseDecl]
      cases hkind : first.kind with
      | kwLet => exact absurd hkind hlet
      | kwConst => exact absurd hkind hconst
      | _ => rfl
  | done | broken => rfl

/-- A return has a value or none. -/
theorem run_script_returnRest (pos : Position) : (returnRest pos).script.run t = (returnRest pos).run t := by
  cases t with
  | more first rest =>
    simp only [script, run_bind, run_sight, TokenStream.sight, run]
    split
    case isTrue h => exact (Stmt.pair_parseReturnRest_ret h).symm
    case isFalse h =>
      simp only [run_bind, run_semicolon, perform, Script.run, run]
      exact (Stmt.pair_parseReturnRest_value (t := .more first rest) fun hk => h (Option.some.inj hk)).symm
  | done | broken =>
    simp only [script, run_bind, run_sight, TokenStream.sight, run_semicolon, perform, Script.run, run]
    exact (Stmt.pair_parseReturnRest_value (by simp)).symm

/-- An expression and a semicolon. -/
theorem run_script_exprStmt : exprStmt.script.run t = exprStmt.run t := by
  simp only [script, run_bind, run_semicolon, perform, Script.run, run]
  rfl

/-- A statement is told by its first token. -/
theorem run_script_stmt : stmt.script.run t = stmt.run t := by
  cases t with
  | more first rest =>
    simp only [script, run_bind, run_sight, TokenStream.sight, run]
    split
    case h_1 h => exact (Stmt.pair_parse_decl (show Grammar.declares? first.kind = some false by rw [h]; rfl)).symm
    case h_2 h => exact (Stmt.pair_parse_decl (show Grammar.declares? first.kind = some true by rw [h]; rfl)).symm
    case h_3 h => exact (Stmt.pair_parse_if h).symm
    case h_4 h => exact (Stmt.pair_parse_while h).symm
    case h_5 h => exact (Stmt.pair_parse_return h).symm
    case h_6 h =>
      rw [Stmt.pair_parse_break h, ← run_semicolon]
      rfl
    case h_7 h =>
      rw [Stmt.pair_parse_continue h, ← run_semicolon]
      rfl
    case h_8 h => exact (Stmt.pair_parse_brace h).symm
    case h_9 h => exact (Stmt.pair_parse_semicolon h).symm
    case h_10 hlet hconst hif hwhile hreturn hbreak hcontinue hbrace hsemi =>
      refine ((Stmt.pair_parse_expr (t := .more first rest) ?_).trans ?_).symm
      · simp_all [Stmt.leading]
      · rfl
  | done | broken =>
    simp only [run]
    rw [Stmt.parse.eq_def]
    rfl

/-- A conditional is a condition, a block, and perhaps an alternative. -/
theorem run_script_ifRest (pos : Position) : (ifRest pos).script.run t = (ifRest pos).run t := by
  simp only [script, run_bind, run_sight, perform, Script.run, run]
  rcases he : (Expr.parse t).pair with ⟨e, t₁⟩
  rcases hbody : (Stmt.parseBlock t₁).pair with ⟨body, t₂⟩
  cases t₂ with
  | more first rest =>
    simp only [TokenStream.sight]
    split
    case isTrue h => exact (Stmt.pair_parseIfRest_else he hbody h).symm
    case isFalse h => exact (Stmt.pair_parseIfRest_then he hbody rfl h).symm
  | done pos' => exact (Stmt.pair_parseIfRest_then he hbody rfl (by decide)).symm
  | broken error => exact (Stmt.pair_parseIfRest_fault he hbody).symm

/-- An alternative is a block or a conditional. -/
theorem run_script_alternative : alternative.script.run t = alternative.run t := by
  cases t with
  | more first rest =>
    simp only [script, run_bind, run_sight, TokenStream.sight, run]
    split
    case h_1 h => exact (Stmt.pair_parseElse_if h).symm
    case h_2 h => exact (Stmt.pair_parseElse_brace h).symm
    case h_3 hif hbrace =>
      rw [Stmt.pair_parseElse_fault (t := .more first rest) (hif <| Option.some.inj ·) (hbrace <| Option.some.inj ·)]
      rfl
  | done | broken =>
    simp only [run]
    rw [Stmt.pair_parseElse_fault (by simp) (by simp)]
    rfl

/-- A block is its brace and its body. -/
theorem run_script_block : block.script.run t = block.run t := by
  simp only [script, run_bind, run_take, run]
  rw [Stmt.parseBlock]
  rcases t.take .openBrace with ⟨_ | _, rest, _⟩ <;> rfl

/-- A body is statements and the closing brace. -/
theorem run_script_body : body.script.run t = body.run t := by
  simp only [script, run_bind, run_take, perform, Script.run, run]
  rcases hclose : (TokenStream.take .closeBrace (Stmt.parseStmts t).pair.2).pair with ⟨error | close, rest⟩
  · exact (Stmt.pair_parseBody_fault hclose).symm
  · exact (Stmt.pair_parseBody hclose).symm

/-- Statements go on up to the closing brace. -/
theorem run_script_stmts : stmts.script.run t = stmts.run t := by
  cases t with
  | more first rest =>
    simp only [script, run_bind, run_sight, TokenStream.sight, run]
    split
    case isTrue h => exact (Stmt.pair_parseStmts_nil (by rintro first' rest' ⟨⟩; exact h)).symm
    case isFalse h => exact (Stmt.pair_parseStmts_cons h).symm
  | done | broken => exact (Stmt.pair_parseStmts_nil (by simp)).symm

/-- A text of statements goes on up to its end. -/
theorem run_script_all : all.script.run t = all.run t := by
  cases t with
  | more first rest => exact Stmt.parseAll_more.symm
  | done | broken =>
    simp only [run]
    rw [Stmt.parseAll.eq_def]
    rfl

/-- A parameter is a name and a type, perhaps behind `const`. -/
theorem run_script_param : param.script.run t = param.run t := by
  simp only [script, run_bind, run_sight, kind?_sight, run, Param.pair_parse, TokenStream.startsWith_eq]
  by_cases hconst : t.nextKind? = some .kwConst
  · simp only [hconst, decide_true, if_true, run_bind, run_advance, run_typed, beq_self_eq_true]
    rcases t.tail.takeTyped with ⟨error | ⟨x, ty⟩, rest⟩ <;> rfl
  · simp only [hconst, decide_false, Bool.false_eq_true, if_false, run_bind, run_typed, beq_eq_false_iff_ne.2 hconst]
    rcases t.takeTyped with ⟨error | ⟨x, ty⟩, rest⟩ <;> rfl

/-- The list of parameters goes on behind a comma. -/
theorem run_script_paramList : paramList.script.run t = paramList.run t := by
  simp only [script, run_bind, perform, Script.run, run]
  rcases hp : (Param.parse t).pair with ⟨error | p, t₁⟩
  · exact (Function.pair_parseParamList_fault hp).symm
  · simp only [run_bind, run_sight, kind?_sight]
    split
    case isTrue h =>
      cases t₁ with
      | more comma rest => exact (Function.pair_parseParamList_cons hp (Option.some.inj h)).symm
      | done | broken => cases h
    case isFalse h => exact (Function.pair_parseParamList_one hp h).symm

/-- The parameters are none or a list. -/
theorem run_script_params : params.script.run t = params.run t := by
  simp only [script, run_bind, run_sight, kind?_sight, run]
  split
  case isTrue h => exact (Function.pair_parseParams_none h).symm
  case isFalse h => exact (Function.pair_parseParams_some h).symm

/-- A function is its header and its body. -/
theorem run_script_function : function.script.run t = function.run t := by
  simp only [script, run_bind, run_take, perform, Script.run, run]
  rw [Function.pair_parse_eq_ofHeader, Function.header]
  dsimp only [Parsed.pair]
  split <;> simp_all [Function.ofHeader]

/-- Declarations go on while one of the two words comes next. -/
theorem run_script_globals : globals.script.run t = globals.run t := by
  simp only [script, run_bind, run_sight, kind?_sight, run]
  rw [CompilationUnit.parseGlobals]
  simp only [TokenStream.startsWith_eq, beq_iff_eq]
  split <;> rfl

/-- Functions go on while `fn` comes next. -/
theorem run_script_functions : functions.script.run t = functions.run t := by
  simp only [script, run_bind, run_sight, kind?_sight, run]
  rw [CompilationUnit.parseFunctions]
  simp only [TokenStream.startsWith_eq, beq_iff_eq]
  split <;> rfl

/-- A program is declarations, functions and the end. -/
theorem run_script_unit : unit.script.run t = unit.run t := by
  simp only [script, run_bind, run_sight, run_pure, perform, Script.run, run, ending_sight]
  rfl

end

/-- The reader does what its script says. -/
theorem run_script (r : Routine) (t : TokenStream) : r.script.run t = r.run t := by
  cases r with
  | expr => exact run_script_expr t
  | level l b => exact run_script_level t l b
  | operand l b => exact run_script_operand t l b
  | operators l left => exact run_script_operators t l left
  | cast b => exact run_script_cast t b
  | casts e => exact run_script_casts t e
  | unary b => exact run_script_unary t b
  | primary b => exact run_script_primary t b
  | name b x => exact run_script_name t b x
  | arguments => exact run_script_arguments t
  | argumentList => exact run_script_argumentList t
  | init constant => exact run_script_init t constant
  | declRest pos constant => exact run_script_declRest t pos constant
  | decl => exact run_script_decl t
  | returnRest pos => exact run_script_returnRest t pos
  | exprStmt => exact run_script_exprStmt t
  | stmt => exact run_script_stmt t
  | ifRest pos => exact run_script_ifRest t pos
  | alternative => exact run_script_alternative t
  | block => exact run_script_block t
  | body => exact run_script_body t
  | stmts => exact run_script_stmts t
  | all => exact run_script_all t
  | param => exact run_script_param t
  | paramList => exact run_script_paramList t
  | params => exact run_script_params t
  | function => exact run_script_function t
  | globals => exact run_script_globals t
  | functions => exact run_script_functions t
  | unit => exact run_script_unit t

end Routine

end C0Stack
