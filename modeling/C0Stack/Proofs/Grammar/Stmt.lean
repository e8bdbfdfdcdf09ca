import C0Stack.Stmt.Parser
import C0Stack.Proofs.Grammar.Expr

/-!
# The grammar of statements

`Grammar.Statement ts s` says that the tokens `ts` derive the statement `s`, and `Grammar.Statements ts s` that they derive a
sequence of statements.

As with expressions, the reader agrees with the grammar in both directions. An `else` belongs to the conditional in front of it, so
a conditional without an alternative ends only before another token.
-/

namespace C0Stack

namespace Grammar

/-- The first word of a declaration, and whether what it declares is constant. -/
def declares? : Token.Kind → Option Bool
  | .kwLet => some false
  | .kwConst => some true
  | _ => none

/-- A declaration. A constant has an initial value, a variable may have one. -/
inductive Declaration : List Token → Stmt → Prop
  | plain {word x colon ty semicolon : Token} :
      word.kind = .kwLet → x.kind = .name → colon.kind = .colon → ty.kind = .name → semicolon.kind = .semicolon →
        Declaration [word, x, colon, ty, semicolon] (.decl word.start false x.ident ty.ident none)
  | init {word x colon ty sign semicolon : Token} {constant : Bool} {ts : List Token} {e : Expr} :
      declares? word.kind = some constant → x.kind = .name → colon.kind = .colon → ty.kind = .name →
        sign.kind = .assign → Expression ts e → semicolon.kind = .semicolon →
        Declaration (word :: x :: colon :: ty :: sign :: (ts ++ [semicolon]))
          (.decl word.start constant x.ident ty.ident (some e))

mutual

/-- A statement. -/
inductive Statement : List Token → Stmt → Prop
  | decl {ts : List Token} {s : Stmt} : Declaration ts s → Statement ts s
  | conditional {ts : List Token} {s : Stmt} : Conditional ts s → Statement ts s
  | loop {word : Token} {ts us : List Token} {e : Expr} {body : Stmt} :
      word.kind = .kwWhile → Expression ts e → Block us body → Statement (word :: (ts ++ us)) (.loop word.start e body)
  | ret {word semicolon : Token} :
      word.kind = .kwReturn → semicolon.kind = .semicolon → Statement [word, semicolon] (.ret word.start semicolon.start)
  | retValue {word semicolon : Token} {ts : List Token} {e : Expr} :
      word.kind = .kwReturn → Expression ts e → semicolon.kind = .semicolon →
        Statement (word :: (ts ++ [semicolon])) (.retValue word.start e)
  | leave {word semicolon : Token} :
      word.kind = .kwBreak → semicolon.kind = .semicolon → Statement [word, semicolon] (.leave word.start)
  | again {word semicolon : Token} :
      word.kind = .kwContinue → semicolon.kind = .semicolon → Statement [word, semicolon] (.again word.start)
  | block {ts : List Token} {s : Stmt} : Block ts s → Statement ts s
  | empty {semicolon : Token} : semicolon.kind = .semicolon → Statement [semicolon] .empty
  | expr {ts : List Token} {semicolon : Token} {e : Expr} :
      Expression ts e → semicolon.kind = .semicolon → Statement (ts ++ [semicolon]) (.expr e)

/-- A conditional, perhaps with an alternative. -/
inductive Conditional : List Token → Stmt → Prop
  | ifThen {word : Token} {ts us : List Token} {e : Expr} {body : Stmt} :
      word.kind = .kwIf → Expression ts e → Block us body → Conditional (word :: (ts ++ us)) (.ifThen word.start e body)
  | ifElse {word elseWord : Token} {ts us vs : List Token} {e : Expr} {body other : Stmt} :
      word.kind = .kwIf → Expression ts e → Block us body → elseWord.kind = .kwElse → Alternative vs other →
        Conditional (word :: (ts ++ (us ++ elseWord :: vs))) (.ifElse word.start e body elseWord.start other)

/-- What may stand behind `else`. -/
inductive Alternative : List Token → Stmt → Prop
  | block {ts : List Token} {s : Stmt} : Block ts s → Alternative ts s
  | conditional {ts : List Token} {s : Stmt} : Conditional ts s → Alternative ts s

/-- Statements in braces. -/
inductive Block : List Token → Stmt → Prop
  | braces {openBrace : Token} {ts : List Token} {body : Stmt} {close : Position} :
      openBrace.kind = .openBrace → Body ts (body, close) → Block (openBrace :: ts) (.block body)

/-- Statements up to the closing brace, and the place of that brace. -/
inductive Body : List Token → Stmt × Position → Prop
  | close {closeBrace : Token} {ts : List Token} {body : Stmt} :
      Statements ts body → closeBrace.kind = .closeBrace → Body (ts ++ [closeBrace]) (body, closeBrace.start)

/-- Any number of statements. -/
inductive Statements : List Token → Stmt → Prop
  | nil : Statements [] .nil
  | cons {ts us : List Token} {s ss : Stmt} : Statement ts s → Statements us ss → Statements (ts ++ us) (.seq s ss)

end

/-! ### How a statement starts -/

/-- The kinds of token that a statement starts with. -/
def statementStarts : List Token.Kind :=
  [.kwLet, .kwConst, .kwIf, .kwWhile, .kwReturn, .kwBreak, .kwContinue, .openBrace, .semicolon] ++ starts

/-- The tokens start with one that a statement may start with. -/
def StartsStatement (ts : List Token) : Prop := ∃ first us, ts = first :: us ∧ first.kind ∈ statementStarts

/-- Only two words start a declaration. -/
theorem declares?_eq_some {k : Token.Kind} {constant : Bool} (h : declares? k = some constant) :
    k = if constant then .kwConst else .kwLet := by
  unfold declares? at h
  split at h <;> simp_all

/-- A declaration starts with its word. -/
theorem Declaration.starts {ts : List Token} {s : Stmt} (h : Declaration ts s) : StartsStatement ts := by
  cases h with
  | plain hword => exact ⟨_, _, rfl, by simp [statementStarts, hword]⟩
  | @init _ _ _ _ _ _ constant _ _ hword =>
    exact ⟨_, _, rfl, by rw [declares?_eq_some hword]; cases constant <;> simp [statementStarts]⟩

/-- A block starts with its brace. -/
theorem Block.starts {ts : List Token} {s : Stmt} (h : Block ts s) : StartsStatement ts := by
  cases h with
  | braces hopen => exact ⟨_, _, rfl, by simp [statementStarts, hopen]⟩

/-- A conditional starts with its word. -/
theorem Conditional.starts {ts : List Token} {s : Stmt} (h : Conditional ts s) : StartsStatement ts := by
  cases h with
  | ifThen hword | ifElse hword => exact ⟨_, _, rfl, by simp [statementStarts, hword]⟩

/-- What starts an expression starts a statement. -/
theorem Starts.statement {ts : List Token} (h : Starts ts) (hs : Shaped ts) : StartsStatement ts := by
  obtain ⟨first, us, rfl, hfirst | hint⟩ := h
  · exact ⟨first, us, rfl, List.mem_append_right _ hfirst⟩
  · exact ⟨first, us, rfl, by simp [statementStarts, Grammar.starts, hs.of_cons.1.2 hint]⟩

/-- Every statement starts with a token of one of the kinds in `statementStarts`. -/
theorem Statement.starts {ts : List Token} {s : Stmt} (h : Statement ts s) (hs : Shaped ts) : StartsStatement ts := by
  cases h with
  | decl h => exact h.starts
  | conditional h => exact h.starts
  | block h => exact h.starts
  | loop hk | ret hk | retValue hk | leave hk | again hk | empty hk => exact ⟨_, _, rfl, by simp [statementStarts, hk]⟩
  | expr h => exact (h.starts.append _).statement hs

end Grammar

/-! ## What each reader does -/

namespace TokenStream

/-- Takes a name, a colon and the name of a type. -/
def takeTyped (t : TokenStream) : Except Diagnostic (Token × Token) × TokenStream :=
  let (x, t₁) := (t.take .name).pair
  let (_, t₂) := (t₁.take .colon).pair
  let (ty, t₃) := (t₂.take .name).pair
  match x, ty with
  | .ok x, .ok ty => (.ok (x, ty), t₃)
  | .error error, _ => (.error error, t₃)
  | _, .error error => (.error error, t₃)

/-- The name and the type are taken if the three tokens come next. -/
theorem takeTyped_more {x colon ty : Token} {rest : TokenStream} (hx : x.kind = .name) (hcolon : colon.kind = .colon)
    (hty : ty.kind = .name) : (more x (more colon (more ty rest))).takeTyped = (.ok (x, ty), rest) := by
  unfold takeTyped
  rw [pair_take_more hx]
  dsimp only
  rw [pair_take_more hcolon]
  dsimp only
  rw [pair_take_more hty]

/-- The name, the colon and the type come next, or the stream breaks. -/
theorem takeTyped_cases (t : TokenStream) :
    (∃ x colon ty rest, x.kind = .name ∧ colon.kind = .colon ∧ ty.kind = .name ∧ t = more x (more colon (more ty rest))) ∨
      ∃ error error', t.takeTyped = (.error error, broken error') := by
  rcases take_cases .name (by simp) ((t.take .name).rest.take .colon).rest with ⟨ty, rest, ht₂, hty, -⟩ | ⟨error, herror⟩
  · obtain ⟨colon, hcolon, ht₁⟩ := exists_of_take .colon (by simp) (t := (t.take .name).rest) (by simp [ht₂])
    obtain ⟨x, hx, ht⟩ := exists_of_take .name (by simp) (t := t) (by simp [ht₁])
    exact .inl ⟨x, colon, ty, rest, hx, hcolon, hty, ht.trans (by rw [ht₁, ht₂])⟩
  · right
    simp only [takeTyped, Parsed.pair] at herror ⊢
    rw [(Prod.mk.inj herror).1, (Prod.mk.inj herror).2]
    cases (t.take .name).value with
    | ok x => exact ⟨error, error, rfl⟩
    | error e => exact ⟨e, error, rfl⟩

end TokenStream

namespace Stmt

section

variable {first : Token} {rest t t₁ t₂ : TokenStream} {s body : Stmt} {e : Expr} {pos : Position} {constant : Bool}

/-- A semicolon behind a statement is taken. -/
theorem pair_parseSemicolon (h : first.kind = .semicolon) : (parseSemicolon s (.more first rest)).pair = (s, rest) := by
  unfold parseSemicolon
  simp [TokenStream.take, h, Parsed.pair]

/-- Without it there is a fault behind the statement. -/
theorem pair_parseSemicolon_fault {error : Diagnostic} (h : (t.take .semicolon).pair = (.error error, rest)) :
    (parseSemicolon s t).pair = (.seq s (.fault error), rest) := by
  unfold parseSemicolon
  split <;> simp_all [Parsed.pair]

/-- Behind an assignment sign the initial value is read. -/
theorem pair_parseInit_some (h : first.kind = .assign) :
    (parseInit constant (.more first rest)).pair = (some (Expr.parse rest).pair.1, (Expr.parse rest).pair.2) := by
  unfold parseInit
  rw [if_pos (by simp [TokenStream.startsWith_eq, h])]
  simp [TokenStream.take, h, Parsed.pair]

/-- A variable needs no initial value. -/
theorem pair_parseInit_none (h : t.nextKind? ≠ some .assign) : (parseInit false t).pair = (none, t) := by
  unfold parseInit
  rw [if_neg (by simp [TokenStream.startsWith_eq, h])]
  rfl

/-- A constant without one has a fault in its place. -/
theorem pair_parseInit_fault {error : Diagnostic} (h : (t.take .assign).pair = (.error error, rest)) :
    (parseInit true t).pair = (some (.fault error), rest) := by
  unfold parseInit
  simp only [Bool.true_or, if_true]
  split <;> simp_all [Parsed.pair]

/-- A declaration is its name and type, then the initial value, then the semicolon; a fault in the first part is all there is. -/
theorem pair_parseDeclRest :
    (parseDeclRest pos constant t).pair =
      match t.takeTyped with
      | (.ok (x, ty), rest) =>
        (parseSemicolon (.decl pos constant x.ident ty.ident (parseInit constant rest).pair.1)
          (parseInit constant rest).pair.2).pair
      | (.error error, rest) => (.fault error, rest) := by
  unfold parseDeclRest TokenStream.takeTyped
  simp only [Parsed.pair]
  split <;> simp_all

/-- The declaration with its name and type in place. -/
theorem pair_parseDeclRest_more {x colon ty : Token} (hx : x.kind = .name) (hcolon : colon.kind = .colon)
    (hty : ty.kind = .name) :
    (parseDeclRest pos constant (.more x (.more colon (.more ty rest)))).pair =
      (parseSemicolon (.decl pos constant x.ident ty.ident (parseInit constant rest).pair.1)
        (parseInit constant rest).pair.2).pair := by
  rw [pair_parseDeclRest, TokenStream.takeTyped_more hx hcolon hty]

/-- A declaration starts with its word. -/
theorem pair_parseDecl (h : Grammar.declares? first.kind = some constant) :
    (parseDecl (.more first rest)).pair = (parseDeclRest first.start constant rest).pair := by
  have hkind := Grammar.declares?_eq_some h
  unfold parseDecl
  cases constant <;> simp_all [Parsed.pair]

/-- A statement that starts with such a word is a declaration. -/
theorem pair_parse_decl (h : Grammar.declares? first.kind = some constant) :
    (parse (.more first rest)).pair = (parseDeclRest first.start constant rest).pair := by
  have hkind := Grammar.declares?_eq_some h
  rw [parse]
  cases constant <;> simp_all [Parsed.pair]

/-- A statement that starts with `if` is a conditional. -/
theorem pair_parse_if (h : first.kind = .kwIf) : (parse (.more first rest)).pair = (parseIfRest first.start rest).pair := by
  rw [parse]
  simp_all [Parsed.pair]

/-- A statement that starts with `while` is a loop, with its condition and its body. -/
theorem pair_parse_while (h : first.kind = .kwWhile) :
    (parse (.more first rest)).pair =
      (.loop first.start (Expr.parse rest).pair.1 (parseBlock (Expr.parse rest).pair.2).pair.1,
        (parseBlock (Expr.parse rest).pair.2).pair.2) := by
  rw [parse]
  simp_all [Parsed.pair]

/-- A statement that starts with `return` is a return. -/
theorem pair_parse_return (h : first.kind = .kwReturn) :
    (parse (.more first rest)).pair = (parseReturnRest first.start rest).pair := by
  rw [parse]
  simp_all [Parsed.pair]

/-- A statement that starts with `break` leaves the loop. -/
theorem pair_parse_break (h : first.kind = .kwBreak) :
    (parse (.more first rest)).pair = (parseSemicolon (.leave first.start) rest).pair := by
  rw [parse]
  simp_all [Parsed.pair]

/-- A statement that starts with `continue` repeats the loop. -/
theorem pair_parse_continue (h : first.kind = .kwContinue) :
    (parse (.more first rest)).pair = (parseSemicolon (.again first.start) rest).pair := by
  rw [parse]
  simp_all [Parsed.pair]

/-- A statement that starts with a brace is a block. -/
theorem pair_parse_brace (h : first.kind = .openBrace) :
    (parse (.more first rest)).pair = (.block (parseBody rest).pair.1.1, (parseBody rest).pair.2) := by
  rw [parse]
  simp_all [Parsed.pair]

/-- A semicolon alone is an empty statement. -/
theorem pair_parse_semicolon (h : first.kind = .semicolon) : (parse (.more first rest)).pair = (.empty, rest) := by
  rw [parse]
  simp_all [Parsed.pair]

/-- The kinds of token that a statement other than an expression starts with. -/
def leading : List Token.Kind :=
  [.kwLet, .kwConst, .kwIf, .kwWhile, .kwReturn, .kwBreak, .kwContinue, .openBrace, .semicolon]

/-- Any other statement is an expression and a semicolon. -/
theorem pair_parse_expr (h : ∀ k ∈ leading, t.nextKind? ≠ some k) :
    (parse t).pair = (parseSemicolon (.expr (Expr.parse t).pair.1) (Expr.parse t).pair.2).pair := by
  cases t with
  | done | broken =>
    rw [parse]
    · rfl
    · simp
  | more first rest =>
    have hfirst : first.kind ∉ leading := fun hk => h first.kind hk rfl
    rw [parse]
    cases hk : first.kind with
    | kwLet | kwConst | kwIf | kwWhile | kwReturn | kwBreak | kwContinue | openBrace | semicolon =>
      simp [leading, hk] at hfirst
    | _ => rfl

/-- A return in front of a semicolon has no value. -/
theorem pair_parseReturnRest_ret (h : first.kind = .semicolon) :
    (parseReturnRest pos (.more first rest)).pair = (.ret pos first.start, rest) := by
  simp [parseReturnRest, h, Parsed.pair]

/-- Any other return has one. -/
theorem pair_parseReturnRest_value (h : t.nextKind? ≠ some .semicolon) :
    (parseReturnRest pos t).pair = (parseSemicolon (.retValue pos (Expr.parse t).pair.1) (Expr.parse t).pair.2).pair := by
  cases t with
  | done | broken => rfl
  | more first rest =>
    have hk : first.kind ≠ .semicolon := fun hk => h (by simp [hk])
    simp [parseReturnRest, hk, Parsed.pair]

/-- A block is what its braces hold. -/
theorem pair_parseBlock (h : first.kind = .openBrace) :
    (parseBlock (.more first rest)).pair = (.block (parseBody rest).pair.1.1, (parseBody rest).pair.2) := by
  rw [parseBlock, TokenStream.take_more h]
  rfl

/-- Without the opening brace there is nothing but the fault. -/
theorem pair_parseBlock_fault {error : Diagnostic} (h : (t.take .openBrace).pair = (.error error, rest)) :
    (parseBlock t).pair = (.fault error, rest) := by
  obtain ⟨_, h⟩ := Parsed.eq_of_pair h
  rw [parseBlock, h]
  rfl

/-- The body of a block ends at the closing brace, whose place is kept. -/
theorem pair_parseBody {close : Token} (h : ((parseStmts t).pair.2.take .closeBrace).pair = (.ok close, rest)) :
    (parseBody t).pair = (((parseStmts t).pair.1, close.start), rest) := by
  rw [parseBody]
  generalize parseStmts t = p at h ⊢
  obtain ⟨body, t₁, _⟩ := p
  obtain ⟨_, (h : t₁.take .closeBrace = _)⟩ := Parsed.eq_of_pair h
  dsimp only
  rw [h]
  rfl

/-- Without the closing brace there is a fault behind the statements, and its place is kept instead. -/
theorem pair_parseBody_fault {error : Diagnostic}
    (h : ((parseStmts t).pair.2.take .closeBrace).pair = (.error error, rest)) :
    (parseBody t).pair = ((.seq (parseStmts t).pair.1 (.fault error), error.pos), rest) := by
  rw [parseBody]
  generalize parseStmts t = p at h ⊢
  obtain ⟨body, t₁, _⟩ := p
  obtain ⟨_, (h : t₁.take .closeBrace = _)⟩ := Parsed.eq_of_pair h
  dsimp only
  rw [h]
  rfl

/-- Statements end in front of the closing brace, and where no token follows. -/
theorem pair_parseStmts_nil (h : ∀ first rest, t = .more first rest → first.kind = .closeBrace) :
    (parseStmts t).pair = (.nil, t) := by
  cases t with
  | done | broken =>
    rw [parseStmts]
    · rfl
    · simp
  | more first rest =>
    rw [parseStmts, if_pos (h first rest rfl)]
    rfl

/-- Before any other token there is one more statement. -/
theorem pair_parseStmts_cons (h : first.kind ≠ .closeBrace) :
    (parseStmts (.more first rest)).pair =
      (.seq (parse (.more first rest)).pair.1 (parseStmts (parse (.more first rest)).pair.2).pair.1,
        (parseStmts (parse (.more first rest)).pair.2).pair.2) := by
  rw [parseStmts, if_neg h]
  rfl

/-- An `else` behind the body belongs to the conditional. -/
theorem pair_parseIfRest_else (ht : (Expr.parse t).pair = (e, t₁)) (hb : (parseBlock t₁).pair = (body, .more first rest))
    (h : first.kind = .kwElse) :
    (parseIfRest pos t).pair = (.ifElse pos e body first.start (parseElse rest).pair.1, (parseElse rest).pair.2) := by
  rw [parseIfRest]
  generalize Expr.parse t = p at ht ⊢
  obtain ⟨_, rfl⟩ := Parsed.eq_of_pair ht
  dsimp only
  generalize parseBlock t₁ = q at hb ⊢
  obtain ⟨_, rfl⟩ := Parsed.eq_of_pair hb
  simp [h, Parsed.pair]

/-- Before any other token the conditional has no alternative. -/
theorem pair_parseIfRest_then {k : Token.Kind} (ht : (Expr.parse t).pair = (e, t₁)) (hb : (parseBlock t₁).pair = (body, t₂))
    (hk : t₂.nextKind? = some k) (h : k ≠ .kwElse) : (parseIfRest pos t).pair = (.ifThen pos e body, t₂) := by
  rw [parseIfRest]
  generalize Expr.parse t = p at ht ⊢
  obtain ⟨_, rfl⟩ := Parsed.eq_of_pair ht
  dsimp only
  generalize parseBlock t₁ = q at hb ⊢
  obtain ⟨_, rfl⟩ := Parsed.eq_of_pair hb
  cases t₂ with
  | broken => simp at hk
  | done pos => rfl
  | more first rest =>
    obtain rfl : first.kind = k := Option.some.inj hk
    simp [h, Parsed.pair]

/-- A stream that breaks behind the body leaves a fault behind the conditional. -/
theorem pair_parseIfRest_fault {error : Diagnostic} (ht : (Expr.parse t).pair = (e, t₁))
    (hb : (parseBlock t₁).pair = (body, .broken error)) :
    (parseIfRest pos t).pair = (.seq (.ifThen pos e body) (.fault error), .broken error) := by
  rw [parseIfRest]
  generalize Expr.parse t = p at ht ⊢
  obtain ⟨_, rfl⟩ := Parsed.eq_of_pair ht
  dsimp only
  generalize parseBlock t₁ = q at hb ⊢
  obtain ⟨_, rfl⟩ := Parsed.eq_of_pair hb
  rfl

/-- A text of statements is read statement by statement. -/
theorem parseAll_more :
    parseAll (.more first rest) =
      (.seq (parse (.more first rest)).pair.1 (parseAll (parse (.more first rest)).pair.2).1,
        (parseAll (parse (.more first rest)).pair.2).2) := by
  rw [parseAll]
  rfl

/-- Behind `else` may come a conditional. -/
theorem pair_parseElse_if (h : first.kind = .kwIf) :
    (parseElse (.more first rest)).pair = (parseIfRest first.start rest).pair := by
  rw [parseElse]
  simp_all [Parsed.pair]

/-- Behind `else` may come a block. -/
theorem pair_parseElse_brace (h : first.kind = .openBrace) :
    (parseElse (.more first rest)).pair = (.block (parseBody rest).pair.1.1, (parseBody rest).pair.2) := by
  rw [parseElse]
  simp_all [Parsed.pair]

/-- Anything else behind `else` is a fault. -/
theorem pair_parseElse_fault (hif : t.nextKind? ≠ some .kwIf) (hbrace : t.nextKind? ≠ some .openBrace) :
    (parseElse t).pair = (.fault (t.unexpected [.openBrace, .kwIf]), .broken (t.unexpected [.openBrace, .kwIf])) := by
  cases t with
  | done | broken =>
    rw [parseElse]
    · rfl
    · simp
  | more first rest =>
    rw [parseElse]
    split
    case h_3 => rfl
    all_goals simp_all

end

end Stmt

/-! ## From a derivation to the tree -/

namespace Grammar

open Stmt TokenStream

/-- An expression in front of a separator is read as it is derived. -/
theorem Expression.pair_parse_of_separator {ts : List Token} {e : Expr} {next : Token} (h : Expression ts e) (hs : Shaped ts)
    (hk : next.kind ∈ Expr.separators) (rest : TokenStream) :
    (Expr.parse ((more next rest).prepend ts)).pair = (e, more next rest) :=
  h.pair_parse hs (nextKind?_more next rest) (Expr.ends_of_mem_separators hk e)

/-- The tokens of a declaration are read as its tree, as a declaration and as a statement. -/
theorem Declaration.pair_parseDecl {ts : List Token} {s : Stmt} (h : Declaration ts s) (hs : Shaped ts) (rest : TokenStream) :
    (parseDecl (rest.prepend ts)).pair = (s, rest) ∧ (Stmt.parse (rest.prepend ts)).pair = (s, rest) := by
  suffices hrest : ∃ word us constant, ts = word :: us ∧ declares? word.kind = some constant ∧
      (parseDeclRest word.start constant (rest.prepend us)).pair = (s, rest) by
    obtain ⟨word, us, constant, rfl, hword, hrest⟩ := hrest
    exact ⟨(Stmt.pair_parseDecl hword).trans hrest, (pair_parse_decl hword).trans hrest⟩
  cases h with
  | @plain word x colon ty semicolon hword hx hcolon hty hsemi =>
    refine ⟨word, _, false, rfl, by simp [declares?, hword], ?_⟩
    rw [prepend_cons, prepend_cons, prepend_cons, prepend_cons, prepend_nil, pair_parseDeclRest_more hx hcolon hty,
      pair_parseInit_none (by simp [hsemi]), pair_parseSemicolon hsemi]
  | @init word x colon ty sign semicolon constant us e hword hx hcolon hty hsign he hsemi =>
    refine ⟨word, _, constant, rfl, hword, ?_⟩
    have hus : Shaped us := hs.of_cons.2.of_cons.2.of_cons.2.of_cons.2.of_cons.2.of_append.1
    have hkind : semicolon.kind ∈ Expr.separators := by simp [Expr.separators, hsemi]
    rw [prepend_cons, prepend_cons, prepend_cons, prepend_cons, prepend_concat, pair_parseDeclRest_more hx hcolon hty,
      pair_parseInit_some hsign, he.pair_parse_of_separator hus hkind rest, pair_parseSemicolon hsemi]

/-- A block starts with an opening brace. -/
theorem Block.exists_brace {ts : List Token} {s : Stmt} (h : Block ts s) :
    ∃ brace us, ts = brace :: us ∧ brace.kind = .openBrace := by
  cases h with
  | braces hopen => exact ⟨_, _, rfl, hopen⟩

/-- In front of a block an expression ends. -/
theorem Block.pair_parse {ts us : List Token} {e : Expr} {s : Stmt} (h : Block us s) (he : Expression ts e) (hs : Shaped ts)
    (rest : TokenStream) : (Expr.parse (rest.prepend (ts ++ us))).pair = (e, rest.prepend us) := by
  obtain ⟨brace, vs, rfl, hbrace⟩ := h.exists_brace
  rw [prepend_append]
  exact he.pair_parse_of_separator hs (by simp [Expr.separators, hbrace]) (rest.prepend vs)

/-- In front of other statements, or of what ends the sequence, no `else` comes next. -/
theorem Statements.nextKind? {ts : List Token} {ss : Stmt} (h : Statements ts ss) (hs : Shaped ts) {rest : TokenStream}
    {k : Token.Kind} (hk : rest.nextKind? = some k) (hne : k ≠ .kwElse) :
    ∃ k', (rest.prepend ts).nextKind? = some k' ∧ k' ≠ .kwElse := by
  cases h with
  | nil => exact ⟨k, hk, hne⟩
  | cons hfirst =>
    obtain ⟨first, us, rfl, hstart⟩ := hfirst.starts hs.of_append.1
    refine ⟨first.kind, rfl, ?_⟩
    intro hfirst
    simp [statementStarts, starts, hfirst] at hstart

mutual

/-- The tokens of a statement are read as its tree, if no `else` comes behind them. -/
theorem Statement.pair_parse {ts : List Token} {s : Stmt} {rest : TokenStream} {k : Token.Kind} :
    Statement ts s → Shaped ts → rest.nextKind? = some k → k ≠ .kwElse → (Stmt.parse (rest.prepend ts)).pair = (s, rest)
  | .decl h, hs, _, _ => (h.pair_parseDecl hs _).2
  | .conditional h, hs, hk, hne => by
    obtain ⟨word, us, rfl, hword, hrest⟩ := h.pair_parseIfRest hs hk hne
    rw [prepend_cons, pair_parse_if hword, hrest]
  | .loop hword he hbody, hs, _, _ => by
    have hs := hs.of_cons.2.of_append
    rw [prepend_cons, pair_parse_while hword, hbody.pair_parse he hs.1, hbody.pair_parseBlock hs.2]
  | .ret hword hsemi, _, _, _ => by
    rw [prepend_cons, pair_parse_return hword]
    exact pair_parseReturnRest_ret hsemi
  | @Statement.retValue word semi us e hword he hsemi, hs, _, _ => by
    have hs := hs.of_cons.2.of_append.1
    have hne := he.starts.nextKind?_ne hs (more semi rest) (k := .semicolon) (by simp [starts])
    rw [prepend_cons, prepend_concat, pair_parse_return hword, pair_parseReturnRest_value hne,
      he.pair_parse_of_separator hs (by simp [Expr.separators, hsemi]) rest, pair_parseSemicolon hsemi]
  | .leave hword hsemi, _, _, _ => by
    rw [prepend_cons, pair_parse_break hword]
    exact pair_parseSemicolon hsemi
  | .again hword hsemi, _, _, _ => by
    rw [prepend_cons, pair_parse_continue hword]
    exact pair_parseSemicolon hsemi
  | .block h, hs, _, _ => by
    have hblock : (parseBlock (rest.prepend ts)).pair = (s, rest) := h.pair_parseBlock hs
    obtain ⟨brace, us, rfl, hbrace⟩ := h.exists_brace
    rw [prepend_cons, Stmt.pair_parseBlock hbrace] at hblock
    rw [prepend_cons, pair_parse_brace hbrace, hblock]
  | .empty hsemi, _, _, _ => pair_parse_semicolon hsemi
  | @Statement.expr us semi e he hsemi, hs, _, _ => by
    have hs := hs.of_append.1
    have hlead : ∀ k ∈ leading, ((more semi rest).prepend us).nextKind? ≠ some k := fun k hk =>
      he.starts.nextKind?_ne hs _ (by revert hk; cases k <;> decide)
    rw [prepend_concat, pair_parse_expr hlead, he.pair_parse_of_separator hs (by simp [Expr.separators, hsemi]) rest,
      pair_parseSemicolon hsemi]

/-- A conditional is read up to a token other than `else`. -/
theorem Conditional.pair_parseIfRest {ts : List Token} {s : Stmt} {rest : TokenStream} {k : Token.Kind} :
    Conditional ts s → Shaped ts → rest.nextKind? = some k → k ≠ .kwElse →
      ∃ word us, ts = word :: us ∧ word.kind = .kwIf ∧ (parseIfRest word.start (rest.prepend us)).pair = (s, rest)
  | .ifThen hword he hbody, hs, hk, hne => by
    have hs := hs.of_cons.2.of_append
    exact ⟨_, _, rfl, hword, pair_parseIfRest_then (hbody.pair_parse he hs.1 rest) (hbody.pair_parseBlock hs.2) hk hne⟩
  | @Conditional.ifElse word elseWord us vs ws e body other hword he hbody helse hother, hs, hk, hne => by
    have hs := hs.of_cons.2.of_append
    have hs' := hs.2.of_append
    refine ⟨word, _, rfl, hword, ?_⟩
    have hbody' : (parseBlock ((more elseWord (rest.prepend ws)).prepend vs)).pair = (body, more elseWord (rest.prepend ws)) :=
      hbody.pair_parseBlock hs'.1
    have he' := hbody.pair_parse he hs.1 (more elseWord (rest.prepend ws))
    rw [← List.append_assoc, prepend_append, prepend_cons, pair_parseIfRest_else he' hbody' helse,
      hother.pair_parseElse hs'.2.of_cons.2 hk hne]

/-- The tokens behind an `else` are read as their tree, if no other `else` comes behind them. -/
theorem Alternative.pair_parseElse {ts : List Token} {s : Stmt} {rest : TokenStream} {k : Token.Kind} :
    Alternative ts s → Shaped ts → rest.nextKind? = some k → k ≠ .kwElse → (parseElse (rest.prepend ts)).pair = (s, rest)
  | .block h, hs, _, _ => by
    have hblock : (parseBlock (rest.prepend ts)).pair = (s, rest) := h.pair_parseBlock hs
    obtain ⟨brace, us, rfl, hbrace⟩ := h.exists_brace
    rw [prepend_cons, Stmt.pair_parseBlock hbrace] at hblock
    rw [prepend_cons, pair_parseElse_brace hbrace, hblock]
  | .conditional h, hs, hk, hne => by
    obtain ⟨word, us, rfl, hword, hrest⟩ := h.pair_parseIfRest hs hk hne
    rw [prepend_cons, pair_parseElse_if hword, hrest]

/-- The tokens of a block are read as its tree, whatever comes behind them. -/
theorem Block.pair_parseBlock {ts : List Token} {s : Stmt} {rest : TokenStream} :
    Block ts s → Shaped ts → (parseBlock (rest.prepend ts)).pair = (s, rest)
  | .braces hopen hbody, hs => by
    rw [prepend_cons, Stmt.pair_parseBlock hopen, hbody.pair_parseBody hs.of_cons.2]

/-- The tokens of the body of a block are read as its tree and the place of the closing brace. -/
theorem Body.pair_parseBody {ts : List Token} {r : Stmt × Position} {rest : TokenStream} :
    Body ts r → Shaped ts → (parseBody (rest.prepend ts)).pair = (r, rest)
  | @Body.close close us body hbody hclose, hs => by
    have hstmts : (parseStmts ((more close rest).prepend us)).pair = (body, more close rest) :=
      hbody.pair_parseStmts hs.of_append.1 hclose
    rw [prepend_concat, Stmt.pair_parseBody (by rw [hstmts]; exact pair_take_more hclose rest), hstmts]

/-- The tokens of statements are read as their tree in front of a closing brace. -/
theorem Statements.pair_parseStmts {ts : List Token} {ss : Stmt} {close : Token} {rest : TokenStream} :
    Statements ts ss → Shaped ts → close.kind = .closeBrace →
      (parseStmts ((more close rest).prepend ts)).pair = (ss, more close rest)
  | .nil, _, hclose => by
    apply pair_parseStmts_nil
    rintro _ _ ⟨⟩
    exact hclose
  | @Statements.cons us vs s ss h hs', hs, hclose => by
    have hs := hs.of_append
    obtain ⟨k, hk, hne⟩ := hs'.nextKind? hs.2 (nextKind?_more close rest) (by simp [hclose])
    have hfirst : (Stmt.parse (((more close rest).prepend vs).prepend us)).pair = (s, (more close rest).prepend vs) :=
      h.pair_parse hs.1 hk hne
    obtain ⟨first, us', rfl, hstart⟩ := h.starts hs.1
    rw [prepend_append]
    rw [prepend_cons] at hfirst ⊢
    rw [pair_parseStmts_cons (fun hk => by simp [statementStarts, starts, hk] at hstart), hfirst,
      hs'.pair_parseStmts hs.2 hclose]

end

/-- A whole text of statements is read to its end. -/
theorem Statements.parseAll_eq {ts : List Token} {ss : Stmt} (pos : Position) (h : Statements ts ss) (hs : Shaped ts) :
    parseAll ((done pos).prepend ts) = (ss, done pos) := by
  cases h with
  | nil => rw [prepend_nil, parseAll]
  | @cons us vs s ss h hs' =>
    have hs := hs.of_append
    obtain ⟨k, hk, hne⟩ := hs'.nextKind? hs.2 (nextKind?_done pos) (by simp)
    have hfirst : (Stmt.parse (((done pos).prepend vs).prepend us)).pair = (s, (done pos).prepend vs) :=
      h.pair_parse hs.1 hk hne
    obtain ⟨first, us', rfl, -⟩ := h.starts hs.1
    rw [prepend_append]
    rw [prepend_cons] at hfirst ⊢
    rw [parseAll_more, hfirst, hs'.parseAll_eq pos hs.2]

end Grammar

/-! ## From the tree to a derivation -/

namespace Stmt

/-- There is no fault in the tree. -/
def Whole : Stmt → Prop
  | nil | empty | leave _ | again _ | ret _ _ => True
  | seq first rest => first.Whole ∧ rest.Whole
  | decl _ _ _ _ init => ∀ e ∈ init, e.Whole
  | expr value | retValue _ value => value.Whole
  | block body => body.Whole
  | ifThen _ condition body | loop _ condition body => condition.Whole ∧ body.Whole
  | ifElse _ condition body _ alternative => condition.Whole ∧ body.Whole ∧ alternative.Whole
  | fault _ => False

open Grammar TokenStream

/-- The semicolon comes next, or there is a fault behind the statement. -/
theorem parseSemicolon_cases (s : Stmt) (t : TokenStream) :
    (∃ semicolon rest, semicolon.kind = .semicolon ∧ t = more semicolon rest ∧ (parseSemicolon s t).pair = (s, rest)) ∨
      Faulty Whole (parseSemicolon s t).pair := by
  rcases take_cases .semicolon (by simp) t with ⟨semicolon, rest, rfl, hk, -⟩ | ⟨error, herror⟩
  · exact .inl ⟨semicolon, rest, hk, rfl, pair_parseSemicolon hk⟩
  · right
    rw [pair_parseSemicolon_fault herror]
    exact ⟨fun hw => hw.2, error, rfl⟩

/-- An expression and a semicolon behind it. -/
theorem parseSemicolon_expr_cases (f : Expr → Stmt) (t : TokenStream) :
    (∃ ts semicolon rest e, Expression ts e ∧ semicolon.kind = .semicolon ∧ t = (more semicolon rest).prepend ts ∧
      (parseSemicolon (f (Expr.parse t).pair.1) (Expr.parse t).pair.2).pair = (f e, rest)) ∨
      Faulty Whole (parseSemicolon (f (Expr.parse t).pair.1) (Expr.parse t).pair.2).pair := by
  rcases parseSemicolon_cases (f (Expr.parse t).pair.1) (Expr.parse t).pair.2 with ⟨semicolon, rest, hk, hrest, heq⟩ | h
  · rcases Expr.reads_parse t with ⟨ts, ht, he, -⟩ | ⟨-, error, herror⟩
    · exact .inl ⟨ts, semicolon, rest, _, he, hk, by rw [← hrest]; exact ht, heq⟩
    · simp [herror] at hrest
  · exact .inr h

/-- A declaration is read as the grammar derives it, or there is a fault in it. -/
theorem reads_parseDeclRest {word : Token} {constant : Bool} (hword : declares? word.kind = some constant) (t : TokenStream) :
    Reads Declaration Anywhere (more word t) (parseDeclRest word.start constant t).pair ∨
      Faulty Whole (parseDeclRest word.start constant t).pair := by
  rcases takeTyped_cases t with ⟨x, colon, ty, rest, hx, hcolon, hty, rfl⟩ | ⟨error, error', herror⟩
  · rw [pair_parseDeclRest_more hx hcolon hty]
    rcases take_cases .assign (by simp) rest with ⟨sign, rest', rfl, hsign, -⟩ | ⟨error, herror⟩
    · rw [pair_parseInit_some hsign]
      rcases parseSemicolon_expr_cases (fun e => .decl word.start constant x.ident ty.ident (some e)) rest' with
        ⟨ts, semicolon, rest, e, he, hsemi, rfl, heq⟩ | h
      · rw [heq]
        refine .inl ⟨_, ?_, .init hword hx hcolon hty hsign he hsemi, trivial⟩
        simp only [prepend_cons, prepend_concat]
      · exact .inr h
    · cases constant with
      | true =>
        rw [pair_parseInit_fault herror]
        refine (parseSemicolon_cases _ _).elim (fun h => ?_) .inr
        obtain ⟨_, _, -, hbroken, -⟩ := h
        exact nomatch hbroken
      | false =>
        rw [pair_parseInit_none (nextKind?_ne_of_take herror)]
        refine (parseSemicolon_cases _ rest).imp_left ?_
        rintro ⟨semicolon, rest', hsemi, rfl, heq⟩
        rw [heq]
        exact ⟨[word, x, colon, ty, semicolon], rfl,
          .plain (declares?_eq_some hword) hx hcolon hty hsemi, trivial⟩
  · rw [pair_parseDeclRest, herror]
    exact .inr ⟨id, error', rfl⟩

/-- A declaration is read as the grammar derives it, from its first word on, or there is a fault in it. -/
theorem reads_parseDecl (t : TokenStream) : Reads Declaration Anywhere t (parseDecl t).pair ∨ Faulty Whole (parseDecl t).pair := by
  cases t with
  | done | broken => exact .inr ⟨id, _, rfl⟩
  | more first rest =>
    cases hword : declares? first.kind with
    | some constant =>
      rw [pair_parseDecl hword]
      exact reads_parseDeclRest hword rest
    | none =>
      rw [parseDecl]
      cases hkind : first.kind with
      | kwLet | kwConst => simp [declares?, hkind] at hword
      | _ => exact .inr ⟨id, _, rfl⟩

/-- Where a block has been read behind a condition, the condition is an expression. -/
theorem reads_condition {t : TokenStream} {r : Stmt × TokenStream} (h : Reads Block Anywhere (Expr.parse t).pair.2 r) :
    ∃ ts us, Expression ts (Expr.parse t).pair.1 ∧ Block us r.1 ∧ t = r.2.prepend (ts ++ us) := by
  obtain ⟨us, hus, hbody, -⟩ := h
  rcases Expr.reads_parse t with ⟨ts, ht, he, -⟩ | ⟨-, error, herror⟩
  · exact ⟨ts, us, he, hbody, by rw [prepend_append, ← hus, ← ht]⟩
  · obtain ⟨brace, vs, rfl, -⟩ := hbody.exists_brace
    rw [herror, prepend_cons] at hus
    exact nomatch hus

/-- The opening brace in front of the statements of a block. -/
theorem reads_braces {brace : Token} (hbrace : brace.kind = .openBrace) {t : TokenStream} {r : (Stmt × Position) × TokenStream}
    (h : Reads Body Anywhere t r ∨ Faulty (fun r => r.1.Whole) r) :
    Reads Block Anywhere (more brace t) (.block r.1.1, r.2) ∨ Faulty Whole (.block r.1.1, r.2) := by
  rcases h with ⟨ts, ht, hbody, -⟩ | ⟨hwhole, herror⟩
  · exact .inl ⟨brace :: ts, by rw [prepend_cons, ← ht], .braces hbrace hbody, trivial⟩
  · exact .inr ⟨hwhole, herror⟩

mutual

/-- A statement is read as the grammar derives it, or there is a fault in the tree. -/
theorem reads_parse (t : TokenStream) : Reads Statement Anywhere t (parse t).pair ∨ Faulty Whole (parse t).pair := by
  by_cases hlead : ∃ k ∈ leading, t.nextKind? = some k
  · cases t with
    | done | broken => simp [leading] at hlead
    | more first rest =>
      obtain ⟨k, hmem, hk⟩ := hlead
      obtain rfl : first.kind = k := Option.some.inj hk
      exact reads_parse_leading hmem rest
  · rw [pair_parse_expr (fun k hk h => hlead ⟨k, hk, h⟩)]
    refine (parseSemicolon_expr_cases .expr t).imp_left ?_
    rintro ⟨ts, semicolon, rest, e, he, hsemi, rfl, heq⟩
    rw [heq]
    exact ⟨ts ++ [semicolon], by rw [prepend_concat], .expr he hsemi, trivial⟩
termination_by 8 * t.length + 1

/-- The statements that their first token tells apart. -/
theorem reads_parse_leading {first : Token} (hmem : first.kind ∈ leading) (rest : TokenStream) :
    Reads Statement Anywhere (more first rest) (parse (more first rest)).pair ∨
      Faulty Whole (parse (more first rest)).pair := by
  cases hfirst : first.kind with
  | kwLet =>
    have hword : declares? first.kind = some false := by simp [declares?, hfirst]
    rw [pair_parse_decl hword]
    exact (reads_parseDeclRest hword rest).imp_left fun ⟨ts, ht, h, _⟩ => ⟨ts, ht, .decl h, trivial⟩
  | kwConst =>
    have hword : declares? first.kind = some true := by simp [declares?, hfirst]
    rw [pair_parse_decl hword]
    exact (reads_parseDeclRest hword rest).imp_left fun ⟨ts, ht, h, _⟩ => ⟨ts, ht, .decl h, trivial⟩
  | kwIf =>
    rw [pair_parse_if hfirst]
    exact (reads_parseIfRest hfirst rest).imp_left fun ⟨ts, ht, h, _⟩ => ⟨ts, ht, .conditional h, trivial⟩
  | kwWhile =>
    rw [pair_parse_while hfirst]
    have hle := (Expr.parse rest).length_le
    rcases reads_parseBlock (Expr.parse rest).pair.2 with hread | ⟨hwhole, herror⟩
    · obtain ⟨ts, us, he, hbody, ht⟩ := reads_condition hread
      exact .inl ⟨first :: (ts ++ us), by rw [prepend_cons, ← ht], .loop hfirst he hbody, trivial⟩
    · exact .inr ⟨fun hw => hwhole hw.2, herror⟩
  | kwReturn =>
    rw [pair_parse_return hfirst]
    by_cases hsemi : rest.nextKind? = some .semicolon
    · cases rest with
      | done | broken => simp at hsemi
      | more semicolon rest =>
        have hkind : semicolon.kind = .semicolon := Option.some.inj hsemi
        rw [pair_parseReturnRest_ret hkind]
        exact .inl ⟨[first, semicolon], rfl, .ret hfirst hkind, trivial⟩
    · rw [pair_parseReturnRest_value hsemi]
      refine (parseSemicolon_expr_cases (.retValue first.start) rest).imp_left ?_
      rintro ⟨ts, semicolon, rest', e, he, hkind, rfl, heq⟩
      rw [heq]
      exact ⟨first :: (ts ++ [semicolon]), by rw [prepend_cons, prepend_concat], .retValue hfirst he hkind, trivial⟩
  | kwBreak =>
    rw [pair_parse_break hfirst]
    refine (parseSemicolon_cases _ rest).imp_left ?_
    rintro ⟨semicolon, rest', hsemi, rfl, heq⟩
    rw [heq]
    exact ⟨[first, semicolon], rfl, .leave hfirst hsemi, trivial⟩
  | kwContinue =>
    rw [pair_parse_continue hfirst]
    refine (parseSemicolon_cases _ rest).imp_left ?_
    rintro ⟨semicolon, rest', hsemi, rfl, heq⟩
    rw [heq]
    exact ⟨[first, semicolon], rfl, .again hfirst hsemi, trivial⟩
  | openBrace =>
    rw [pair_parse_brace hfirst]
    exact (reads_braces hfirst (reads_parseBody rest)).imp_left fun ⟨ts, ht, h, _⟩ => ⟨ts, ht, .block h, trivial⟩
  | semicolon =>
    rw [pair_parse_semicolon hfirst]
    exact .inl ⟨[first], rfl, .empty hfirst, trivial⟩
  | _ => simp [leading, hfirst] at hmem
termination_by 8 * rest.length + 7
decreasing_by all_goals simp [Parsed.pair] <;> omega

/-- A conditional is read as the grammar derives it, or there is a fault in it. -/
theorem reads_parseIfRest {word : Token} (hword : word.kind = .kwIf) (t : TokenStream) :
    Reads Conditional Anywhere (more word t) (parseIfRest word.start t).pair ∨
      Faulty Whole (parseIfRest word.start t).pair := by
  have hle := (Expr.parse t).length_le
  have hle' := (parseBlock (Expr.parse t).pair.2).length_le
  rcases reads_parseBlock (Expr.parse t).pair.2 with hread | ⟨hwhole, error, herror⟩
  · obtain ⟨ts, us, he, hbody, ht⟩ := reads_condition hread
    cases hrest : (parseBlock (Expr.parse t).pair.2).pair.2 with
    | broken error =>
      rw [pair_parseIfRest_fault rfl (Prod.ext rfl hrest)]
      exact .inr ⟨fun hw => hw.2, error, rfl⟩
    | done pos =>
      have hblock : (parseBlock (Expr.parse t).pair.2).pair = (_, done pos) := Prod.ext rfl hrest
      rw [pair_parseIfRest_then rfl hblock (nextKind?_done pos) (by simp)]
      exact .inl ⟨word :: (ts ++ us), by rw [prepend_cons, ← hrest, ← ht], .ifThen hword he hbody, trivial⟩
    | more first rest =>
      by_cases helse : first.kind = .kwElse
      · rw [pair_parseIfRest_else rfl (Prod.ext rfl hrest) helse]
        have hlen : rest.length < t.length := by
          have hrest' : (parseBlock (Expr.parse t).pair.2).rest = more first rest := hrest
          rw [hrest', length_more] at hle'
          simp only [Parsed.pair] at hle'
          omega
        rcases reads_parseElse rest with ⟨vs, hvs, hother, -⟩ | ⟨hwhole, herror⟩
        · refine .inl ⟨word :: (ts ++ (us ++ first :: vs)), ?_, .ifElse hword he hbody helse hother, trivial⟩
          rw [prepend_cons, ← List.append_assoc, prepend_append, prepend_cons, ← hvs, ← hrest, ← ht]
        · exact .inr ⟨fun hw => hwhole hw.2.2, herror⟩
      · have hblock : (parseBlock (Expr.parse t).pair.2).pair = (_, more first rest) := Prod.ext rfl hrest
        rw [pair_parseIfRest_then rfl hblock (nextKind?_more first rest) helse]
        exact .inl ⟨word :: (ts ++ us), by rw [prepend_cons, ← hrest, ← ht], .ifThen hword he hbody, trivial⟩
  · rw [pair_parseIfRest_fault rfl (Prod.ext rfl herror)]
    exact .inr ⟨fun hw => hw.2, error, rfl⟩
termination_by 8 * t.length + 5
decreasing_by
  · simp only [Parsed.pair]
    omega
  · omega

/-- What stands behind `else` is read as the grammar derives it, or there is a fault in it. -/
theorem reads_parseElse (t : TokenStream) :
    Reads Alternative Anywhere t (parseElse t).pair ∨ Faulty Whole (parseElse t).pair := by
  by_cases hif : t.nextKind? = some .kwIf
  · cases t with
    | done | broken => simp at hif
    | more first rest =>
      rw [pair_parseElse_if (Option.some.inj hif)]
      exact (reads_parseIfRest (Option.some.inj hif) rest).imp_left fun ⟨ts, ht, h, _⟩ => ⟨ts, ht, .conditional h, trivial⟩
  by_cases hbrace : t.nextKind? = some .openBrace
  · cases t with
    | done | broken => simp at hbrace
    | more first rest =>
      rw [pair_parseElse_brace (Option.some.inj hbrace)]
      exact (reads_braces (Option.some.inj hbrace) (reads_parseBody rest)).imp_left fun ⟨ts, ht, h, _⟩ =>
        ⟨ts, ht, .block h, trivial⟩
  rw [pair_parseElse_fault hif hbrace]
  exact .inr ⟨id, _, rfl⟩
termination_by 8 * t.length
decreasing_by all_goals (simp; omega)

/-- A block is read as the grammar derives it, or there is a fault in it. -/
theorem reads_parseBlock (t : TokenStream) : Reads Block Anywhere t (parseBlock t).pair ∨ Faulty Whole (parseBlock t).pair := by
  rcases take_cases .openBrace (by simp) t with ⟨brace, rest, ht, hbrace, -⟩ | ⟨error, herror⟩
  · have hlen : t.length = rest.length + 1 := by rw [ht, length_more]
    rw [ht, pair_parseBlock hbrace]
    exact reads_braces hbrace (reads_parseBody rest)
  · rw [pair_parseBlock_fault herror]
    exact .inr ⟨id, error, rfl⟩
termination_by 8 * t.length + 4

/-- The statements of a block and the closing brace. -/
theorem reads_parseBody (t : TokenStream) :
    Reads Body Anywhere t (parseBody t).pair ∨ Faulty (fun r => r.1.Whole) (parseBody t).pair := by
  rcases take_cases .closeBrace (by simp) (parseStmts t).pair.2 with ⟨close, rest, hclose, hkind, htake⟩ | ⟨error, herror⟩
  · rw [pair_parseBody htake]
    rcases reads_parseStmts t with ⟨ts, ht, hbody, -⟩ | ⟨-, error, herror⟩
    · exact .inl ⟨ts ++ [close], by rw [prepend_concat, ← hclose, ← ht], .close hbody hkind, trivial⟩
    · simp [hclose] at herror
  · rw [pair_parseBody_fault herror]
    exact .inr ⟨fun hw => hw.2, error, rfl⟩
termination_by 8 * t.length + 3

/-- Statements are read as the grammar derives them, or there is a fault in one of them. -/
theorem reads_parseStmts (t : TokenStream) :
    Reads Statements Anywhere t (parseStmts t).pair ∨ Faulty Whole (parseStmts t).pair := by
  by_cases hend : ∀ first rest, t = more first rest → first.kind = .closeBrace
  · rw [pair_parseStmts_nil hend]
    exact .inl ⟨[], rfl, .nil, trivial⟩
  · cases t with
    | done | broken => simp at hend
    | more first rest =>
      have hfirst : first.kind ≠ .closeBrace := by simpa using hend
      have hle := (parse (more first rest)).length_le
      rw [pair_parseStmts_cons hfirst]
      rcases reads_parse (more first rest) with ⟨ts, ht, h, -⟩ | ⟨hwhole, error, herror⟩
      · rcases reads_parseStmts (parse (more first rest)).pair.2 with ⟨us, hus, hs, -⟩ | ⟨hwhole, herror⟩
        · exact .inl ⟨ts ++ us, by rw [prepend_append, ← hus, ← ht], .cons h hs, trivial⟩
        · exact .inr ⟨fun hw => hwhole hw.2, herror⟩
      · refine .inr ⟨fun hw => hwhole hw.1, error, ?_⟩
        rw [herror, pair_parseStmts_nil (by simp)]
termination_by 8 * t.length + 2
decreasing_by
  · simp
  · simp only [Parsed.pair, length_more] at hle ⊢
    omega

end

/-- A whole text of statements that is read without a fault is derived as it was read. -/
theorem statements_of_parseAll (t : TokenStream) :
    (parseAll t).1.Whole → ∃ ts pos, t = (done pos).prepend ts ∧ Statements ts (parseAll t).1 := by
  cases t with
  | done pos =>
    intro _
    rw [parseAll]
    exact ⟨[], pos, rfl, .nil⟩
  | broken error =>
    intro h
    rw [parseAll] at h
    exact h.elim
  | more first rest =>
    intro h
    have hle := (parse (more first rest)).length_le
    rw [parseAll_more] at h ⊢
    rcases reads_parse (more first rest) with ⟨ts, ht, hfirst, -⟩ | ⟨hwhole, -⟩
    · obtain ⟨us, pos, hus, hs⟩ := statements_of_parseAll (parse (more first rest)).pair.2 h.2
      exact ⟨ts ++ us, pos, by rw [prepend_append, ← hus, ← ht], .cons hfirst hs⟩
    · exact absurd h.1 hwhole
termination_by t.length
decreasing_by
  simp only [Parsed.pair, length_more] at hle ⊢
  omega

end Stmt

end C0Stack
