import C0Stack.Expr.Parser
import C0Stack.Proofs.Token.Shape

/-!
# The grammar of expressions

`Grammar.Expression ts e` says that the tokens `ts` derive the tree `e`. The layers are those of the language: an assignment stands
only where an expression starts and takes all of the expression behind its sign; the operators of each level group to the left;
behind them come casts, minus signs and the primary expressions.

The reader agrees with the grammar in both directions. If some tokens derive a tree, and the token behind them cannot go on with
it (`Expr.Ends`), then the reader takes exactly these tokens and gives that tree (`Grammar.Expression.pair_parse`). If the reader gives
a tree without a fault in it, then the tokens it took derive that tree (`Expr.reads_parse`).
-/

namespace C0Stack

namespace TokenStream

/-- The stream with tokens put in front of it. -/
def prepend (t : TokenStream) (ts : List Token) : TokenStream := ts.foldr more t

@[simp] theorem prepend_nil (t : TokenStream) : t.prepend [] = t := rfl

@[simp] theorem prepend_cons (t : TokenStream) (first : Token) (ts : List Token) :
    t.prepend (first :: ts) = more first (t.prepend ts) := rfl

/-- Tokens in front of tokens in front of the stream. -/
@[simp] theorem prepend_append (t : TokenStream) (ts us : List Token) :
    t.prepend (ts ++ us) = (t.prepend us).prepend ts := by
  unfold prepend
  rw [List.foldr_append]

/-- The last of the tokens may be put in front first. -/
theorem prepend_concat (t : TokenStream) (ts : List Token) (last : Token) :
    t.prepend (ts ++ [last]) = (more last t).prepend ts := by
  rw [prepend_append]
  rfl

/-- The kind of the next token; none where the text cannot be read on. -/
def nextKind? : TokenStream → Option Token.Kind
  | done _ => some .endOfFile
  | broken _ => none
  | more first _ => some first.kind

@[simp] theorem nextKind?_more (first : Token) (rest : TokenStream) : (more first rest).nextKind? = some first.kind := rfl

@[simp] theorem nextKind?_done (pos : Position) : (done pos).nextKind? = some .endOfFile := rfl

@[simp] theorem nextKind?_broken (error : Diagnostic) : (broken error).nextKind? = none := rfl

/-- The test for the next token compares its kind, and fails where the text cannot be read on. -/
theorem startsWith_eq (kind : Token.Kind) (t : TokenStream) : t.startsWith kind = (t.nextKind? == some kind) := by
  cases t <;> rfl

end TokenStream

/-! ## Derivations -/

namespace Grammar

mutual

/-- An expression: an assignment, or operands of the loosest level with operators between them. -/
inductive Expression : List Token → Expr → Prop
  | assign {x sign : Token} {ts : List Token} {e : Expr} :
      x.kind = .name → sign.kind = .assign → Expression ts e → Expression (x :: sign :: ts) (.assign x.ident e)
  | value {ts : List Token} {e : Expr} : Level .relational ts e → Expression ts e

/-- Operands with operators of one level between them, grouped to the left. -/
inductive Level : Precedence → List Token → Expr → Prop
  | operand {level : Precedence} {ts : List Token} {e : Expr} : Operand level ts e → Level level ts e
  | binary {level : Precedence} {ts us : List Token} {sign : Token} {op : BinaryOp} {left right : Expr} :
      Level level ts left → BinaryOp.ofKindAt? level sign.kind = some op → Operand level us right →
        Level level (ts ++ sign :: us) (.binary left op sign.start right)

/-- An operand of the operators of one level. -/
inductive Operand : Precedence → List Token → Expr → Prop
  | relational {ts : List Token} {e : Expr} : Level .additive ts e → Operand .relational ts e
  | additive {ts : List Token} {e : Expr} : Level .multiplicative ts e → Operand .additive ts e
  | multiplicative {ts : List Token} {e : Expr} : Cast ts e → Operand .multiplicative ts e

/-- A unary expression and the casts behind it. -/
inductive Cast : List Token → Expr → Prop
  | unary {ts : List Token} {e : Expr} : Unary ts e → Cast ts e
  | cast {ts : List Token} {word ty : Token} {e : Expr} :
      Cast ts e → word.kind = .kwAs → ty.kind = .name → Cast (ts ++ [word, ty]) (.cast e word.start ty.ident)

/-- A primary expression, perhaps after minus signs. -/
inductive Unary : List Token → Expr → Prop
  | primary {ts : List Token} {e : Expr} : Primary ts e → Unary ts e
  | neg {sign : Token} {ts : List Token} {e : Expr} :
      sign.kind = .minus → Unary ts e → Unary (sign :: ts) (.neg sign.start e)

/-- A literal, a name, a call, or an expression in parentheses. -/
inductive Primary : List Token → Expr → Prop
  | int {t : Token} {n : UInt64} : t.value = .integer n → Primary [t] (.int t.start n)
  | double {t : Token} : t.kind = .double → Primary [t] (.literal t.start .double)
  | string {t : Token} : t.kind = .string → Primary [t] (.literal t.start .string)
  | var {x : Token} : x.kind = .name → Primary [x] (.var x.ident)
  | call {f openParen : Token} {ts : List Token} {args : List Expr} :
      f.kind = .name → openParen.kind = .openParen → Arguments ts args →
        Primary (f :: openParen :: ts) (.call f.ident args)
  | paren {openParen closeParen : Token} {ts : List Token} {e : Expr} :
      openParen.kind = .openParen → Expression ts e → closeParen.kind = .closeParen →
        Primary (openParen :: (ts ++ [closeParen])) (.paren openParen.start e)

/-- The arguments of a call, from behind the opening parenthesis to the closing one. -/
inductive Arguments : List Token → List Expr → Prop
  | none {closeParen : Token} : closeParen.kind = .closeParen → Arguments [closeParen] []
  | some {ts : List Token} {args : List Expr} : ArgumentList ts args → Arguments ts args

/-- At least one argument, commas between them, and the closing parenthesis. -/
inductive ArgumentList : List Token → List Expr → Prop
  | one {ts : List Token} {closeParen : Token} {e : Expr} :
      Expression ts e → closeParen.kind = .closeParen → ArgumentList (ts ++ [closeParen]) [e]
  | cons {ts us : List Token} {comma : Token} {e : Expr} {es : List Expr} :
      Expression ts e → comma.kind = .comma → ArgumentList us es → ArgumentList (ts ++ comma :: us) (e :: es)

end

/-! ### How an expression starts -/

/-- The kinds of token that an expression starts with. -/
def starts : List Token.Kind := [.integer, .double, .string, .name, .openParen, .minus]

/-- The tokens start with one that an expression may start with. -/
def Starts (ts : List Token) : Prop := ∃ first us, ts = first :: us ∧ (first.kind ∈ starts ∨ ∃ n, first.value = .integer n)

/-- What comes behind does not change how tokens start. -/
theorem Starts.append {ts : List Token} (h : Starts ts) (us : List Token) : Starts (ts ++ us) := by
  obtain ⟨first, vs, rfl, hk⟩ := h
  exact ⟨first, vs ++ us, rfl, hk⟩

/-- A primary expression starts with its literal, its name or its parenthesis. -/
theorem Primary.starts {ts : List Token} {e : Expr} (h : Primary ts e) : Starts ts := by
  cases h with
  | int hv => exact ⟨_, [], rfl, .inr ⟨_, hv⟩⟩
  | double hk | string hk | var hk => exact ⟨_, [], rfl, .inl (by simp [Grammar.starts, hk])⟩
  | call hk | paren hk => exact ⟨_, _, rfl, .inl (by simp [Grammar.starts, hk])⟩

/-- A unary expression starts with a minus sign or with its primary expression. -/
theorem Unary.starts {ts : List Token} {e : Expr} (h : Unary ts e) : Starts ts := by
  cases h with
  | primary h => exact h.starts
  | neg hk => exact ⟨_, _, rfl, .inl (by simp [Grammar.starts, hk])⟩

/-- A cast starts with the expression that is cast. -/
theorem Cast.starts {ts : List Token} {e : Expr} : Cast ts e → Starts ts
  | .unary h => h.starts
  | .cast h _ _ => h.starts.append _

mutual

/-- An operand starts as an expression does. -/
theorem Operand.starts {level : Precedence} {ts : List Token} {e : Expr} : Operand level ts e → Starts ts
  | .relational h | .additive h | .multiplicative h => h.starts

/-- Operands with operators between them start with the first operand. -/
theorem Level.starts {level : Precedence} {ts : List Token} {e : Expr} : Level level ts e → Starts ts
  | .operand h => h.starts
  | .binary h _ _ => h.starts.append _

end

/-- Every expression starts with a token of one of the kinds in `starts`. -/
theorem Expression.starts {ts : List Token} {e : Expr} (h : Expression ts e) : Starts ts := by
  cases h with
  | assign hk => exact ⟨_, _, rfl, .inl (by simp [Grammar.starts, hk])⟩
  | value h => exact h.starts

end Grammar

/-! ## Where an expression ends -/

namespace Expr

/-- The last token of the expression is a name that is read as a variable. -/
def endsInName : Expr → Bool
  | var _ => true
  | assign _ value => value.endsInName
  | neg _ operand => operand.endsInName
  | binary _ _ _ right => right.endsInName
  | _ => false

/-- A token of kind `k` does not make a call or an assignment of the name that the expression ends in. -/
def NameEnds (e : Expr) (k : Token.Kind) : Prop := e.endsInName = true → k ≠ .openParen ∧ k ≠ .assign

/-- A token of kind `k` does not go on with the expression: it makes nothing else of a name that comes last, it is no cast, and
no operator whose level is below `bound`. -/
structure EndsBelow (bound : Nat) (e : Expr) (k : Token.Kind) : Prop where
  name : e.NameEnds k
  cast : k ≠ .kwAs
  operator : ∀ op, BinaryOp.ofKind? k = some op → bound ≤ rank op.precedence

/-- A token of kind `k` does not go on with the expression: it is neither an operator nor a cast, and behind a variable neither
an opening parenthesis nor an assignment sign. -/
structure Ends (e : Expr) (k : Token.Kind) : Prop where
  name : e.NameEnds k
  cast : k ≠ .kwAs
  operator : BinaryOp.ofKind? k = none

/-- What goes on with no operator of any level goes on with none below a bound. -/
theorem Ends.below {e : Expr} {k : Token.Kind} (h : e.Ends k) (bound : Nat) : e.EndsBelow bound k :=
  ⟨h.name, h.cast, fun op hop => by simp [h.operator] at hop⟩

/-- The bound above the loosest level bounds all operators. -/
theorem EndsBelow.ends {e : Expr} {k : Token.Kind} (h : e.EndsBelow (rank .relational + 1) k) : e.Ends k := by
  refine ⟨h.name, h.cast, ?_⟩
  cases hop : BinaryOp.ofKind? k with
  | none => rfl
  | some op =>
    have hlt := h.operator op hop
    cases op <;> simp [rank, BinaryOp.precedence] at hlt

/-- The kinds of token that go on with no expression and that the grammar puts behind one. -/
def separators : List Token.Kind := [.closeParen, .comma, .semicolon, .openBrace, .endOfFile]

/-- A separator goes on with no expression. -/
theorem ends_of_mem_separators {k : Token.Kind} (h : k ∈ separators) (e : Expr) : e.Ends k := by
  simp only [separators, List.mem_cons, List.not_mem_nil, or_false] at h
  rcases h with rfl | rfl | rfl | rfl | rfl <;> exact ⟨fun _ => by simp, by simp, rfl⟩

/-- An operand of a level ends where no tighter operator follows. -/
theorem EndsBelow.mono {e : Expr} {k : Token.Kind} {m n : Nat} (h : e.EndsBelow n k) (hle : m ≤ n) : e.EndsBelow m k :=
  ⟨h.name, h.cast, fun op hop => Nat.le_trans hle (h.operator op hop)⟩

end Expr

/-- A kind stands for an operator of the level if it stands for an operator and that has this level. -/
theorem BinaryOp.ofKindAt?_eq_some {level : Precedence} {k : Token.Kind} {op : BinaryOp} :
    ofKindAt? level k = some op ↔ ofKind? k = some op ∧ op.precedence = level := by
  unfold ofKindAt?
  rw [Option.filter_eq_some_iff, beq_iff_eq]

/-- What was read and the stream behind it. -/
def Parsed.pair {α : Type} {bound : Nat} (p : Parsed α bound) : α × TokenStream := (p.value, p.rest)

/-- What was read is determined by the value and the stream behind it: the rest is a proof. -/
theorem Parsed.eq_of_pair {α : Type} {bound : Nat} {p : Parsed α bound} {value : α} {rest : TokenStream}
    (h : p.pair = (value, rest)) : ∃ hle, p = ⟨value, rest, hle⟩ := by
  obtain ⟨v, r, hle⟩ := p
  obtain ⟨rfl, rfl⟩ := Prod.mk.inj h
  exact ⟨hle, rfl⟩

/-- Either the token of the kind comes next and is taken, or the stream breaks. -/
theorem TokenStream.take_cases (kind : Token.Kind) (hkind : kind ≠ .endOfFile) (t : TokenStream) :
    (∃ first rest, t = more first rest ∧ first.kind = kind ∧ (t.take kind).pair = (.ok first, rest)) ∨
      ∃ error, (t.take kind).pair = (.error error, broken error) := by
  cases t with
  | done pos =>
    right
    simp only [take, hkind, if_false]
    exact ⟨_, rfl⟩
  | broken error => exact .inr ⟨error, rfl⟩
  | more first rest =>
    by_cases h : first.kind = kind
    · exact .inl ⟨first, rest, rfl, h, by simp [take, h, Parsed.pair]⟩
    · right
      simp only [take, h, if_false]
      exact ⟨_, rfl⟩

/-- A token that cannot be taken was not next. -/
theorem TokenStream.nextKind?_ne_of_take {kind : Token.Kind} {t rest : TokenStream} {error : Diagnostic}
    (h : (t.take kind).pair = (.error error, rest)) : t.nextKind? ≠ some kind := by
  intro hk
  cases t with
  | broken => simp at hk
  | done pos =>
    obtain rfl : Token.Kind.endOfFile = kind := Option.some.inj hk
    exact nomatch congrArg Prod.fst h
  | more first rest =>
    obtain rfl : first.kind = kind := Option.some.inj hk
    simp [take, Parsed.pair] at h

/-- Where the stream can be read on behind a token, the token has been taken. -/
theorem TokenStream.exists_of_take (kind : Token.Kind) (hkind : kind ≠ .endOfFile) {t : TokenStream}
    (h : (t.take kind).rest.nextKind? ≠ none) : ∃ first, first.kind = kind ∧ t = more first (t.take kind).rest := by
  rcases take_cases kind hkind t with ⟨first, rest, ht, hk, htake⟩ | ⟨error, htake⟩
  · have hrest : (t.take kind).rest = rest := congrArg Prod.snd htake
    exact ⟨first, hk, by rw [hrest, ht]⟩
  · have hrest : (t.take kind).rest = broken error := congrArg Prod.snd htake
    rw [hrest] at h
    exact absurd rfl h

/-- A token of the kind is taken if it comes next. -/
theorem TokenStream.take_more {kind : Token.Kind} {first : Token} (h : first.kind = kind) {rest : TokenStream} :
    (more first rest).take kind = ⟨.ok first, rest, length_rest_le first rest⟩ := by
  simp [take, h]

/-- The same, said of the value and the stream behind it. -/
theorem TokenStream.pair_take_more {kind : Token.Kind} {first : Token} (h : first.kind = kind) (rest : TokenStream) :
    ((more first rest).take kind).pair = (.ok first, rest) := by
  rw [take_more h]
  rfl

/-! ## What each reader does -/

namespace Expr

section

variable {b : Bool} {level : Precedence} {first : Token} {rest t : TokenStream} {e left : Expr} {k : Token.Kind} {x : Ident}

/-- An expression is read as the loosest level, where an assignment may come first. -/
theorem pair_parse : (parse t).pair = (parseLevel .relational false t).pair := by
  rw [parse]

/-- A level is read as its first operand and the loop of operators behind it. -/
theorem pair_parseLevel :
    (parseLevel level b t).pair =
      (parseOperators level (parseOperand level b t).pair.1 (parseOperand level b t).pair.2).pair := by
  rw [parseLevel]
  rfl

/-- The operands of comparisons are sums. -/
theorem pair_parseOperand_relational : (parseOperand .relational b t).pair = (parseLevel .additive b t).pair := by
  rw [parseOperand]

/-- The operands of sums are products. -/
theorem pair_parseOperand_additive : (parseOperand .additive b t).pair = (parseLevel .multiplicative b t).pair := by
  rw [parseOperand]

/-- The operands of products are casts. -/
theorem pair_parseOperand_multiplicative : (parseOperand .multiplicative b t).pair = (parseCast b t).pair := by
  rw [parseOperand]

/-- At an operator of its level the loop reads one more operand, and goes on with the two put together. -/
theorem pair_parseOperators_more {op : BinaryOp} (h : BinaryOp.ofKindAt? level first.kind = some op) :
    (parseOperators level left (.more first rest)).pair =
      (parseOperators level (.binary left op first.start (parseOperand level true rest).pair.1)
        (parseOperand level true rest).pair.2).pair := by
  rw [parseOperators]
  split
  · rename_i op' h'
    obtain rfl : op' = op := Option.some.inj (h'.symm.trans h)
    rfl
  · rename_i h'
    simp [h] at h'

/-- The loop ends where no operator of its level comes next. -/
theorem pair_parseOperators_stop (h : ∀ k, t.nextKind? = some k → BinaryOp.ofKindAt? level k = none) :
    (parseOperators level left t).pair = (left, t) := by
  cases t with
  | done | broken =>
    rw [parseOperators]
    · rfl
    · simp
  | more first rest =>
    rw [parseOperators]
    simp only [h first.kind rfl]
    rfl

/-- A cast is read as a unary expression and the loop of casts behind it. -/
theorem pair_parseCast :
    (parseCast b t).pair = (parseCasts (parseUnary b t).pair.1 (parseUnary b t).pair.2).pair := by
  rw [parseCast]
  rfl

/-- At `as` and a name the loop goes on with the cast. -/
theorem pair_parseCasts_as {ty : Token} (h : first.kind = .kwAs) (hty : ty.kind = .name) :
    (parseCasts e (.more first (.more ty rest))).pair = (parseCasts (.cast e first.start ty.ident) rest).pair := by
  rw [parseCasts]
  simp only [h, if_true]
  simp only [TokenStream.take, hty, if_true]
  rfl

/-- The loop of casts ends where no `as` comes next. -/
theorem pair_parseCasts_stop (h : t.nextKind? = some k) (hk : k ≠ .kwAs) : (parseCasts e t).pair = (e, t) := by
  cases t with
  | broken => simp at h
  | done pos => rw [parseCasts]; rfl
  | more first rest =>
    obtain rfl : first.kind = k := Option.some.inj h
    rw [parseCasts]
    simp only [hk, if_false]
    rfl

/-- Behind an `as` without a name what has been read is cut there. -/
theorem pair_parseCasts_cut (h : first.kind = .kwAs) {error : Diagnostic}
    (hc : (rest.take .name).pair = (.error error, t)) :
    (parseCasts e (.more first rest)).pair = (.cut e error, t) := by
  rw [parseCasts]
  simp only [h, if_true]
  split <;> simp_all [Parsed.pair]

/-- A minus sign is read, and then its operand, in which no assignment may come first. -/
theorem pair_parseUnary_minus (h : first.kind = .minus) :
    (parseUnary b (.more first rest)).pair = (.neg first.start (parseUnary true rest).pair.1, (parseUnary true rest).pair.2) := by
  rw [parseUnary]
  simp only [h, if_true]
  rfl

/-- What does not start with a minus sign is a primary expression. -/
theorem pair_parseUnary_primary (h : first.kind ≠ .minus) :
    (parseUnary b (.more first rest)).pair = (parsePrimary b first rest).pair := by
  rw [parseUnary]
  simp only [h, if_false]
  rfl

/-- An integer is read as its value. -/
theorem pair_parsePrimary_integer {n : UInt64} (h : first.value = .integer n) :
    (parsePrimary b first t).pair = (.int first.start n, t) := by
  rw [parsePrimary]
  simp only [h]
  rfl

/-- A name is read together with what makes a call or an assignment of it. -/
theorem pair_parsePrimary_name (h : first.kind = .name) (hv : ∀ n, first.value ≠ .integer n) :
    (parsePrimary b first t).pair = (parseName b first.ident t).pair := by
  rw [parsePrimary]
  split <;> simp_all

/-- An expression in parentheses is read if the closing one comes behind it. -/
theorem pair_parsePrimary_openParen (h : first.kind = .openParen) (hv : ∀ n, first.value ≠ .integer n) {close : Token}
    (hc : ((parse t).pair.2.take .closeParen).pair = (.ok close, rest)) :
    (parsePrimary b first t).pair = (.paren first.start (parse t).pair.1, rest) := by
  rw [parsePrimary]
  split <;> simp_all [Parsed.pair]
  split <;> simp_all

/-- Without the closing parenthesis the expression is cut. -/
theorem pair_parsePrimary_cut (h : first.kind = .openParen) (hv : ∀ n, first.value ≠ .integer n) {error : Diagnostic}
    (hc : ((parse t).pair.2.take .closeParen).pair = (.error error, rest)) :
    (parsePrimary b first t).pair = (.cut (parse t).pair.1 error, rest) := by
  rw [parsePrimary]
  split <;> simp_all [Parsed.pair]
  split <;> simp_all

/-- A double is read as a literal of no value. -/
theorem pair_parsePrimary_double (h : first.kind = .double) (hv : ∀ n, first.value ≠ .integer n) :
    (parsePrimary b first t).pair = (.literal first.start .double, t) := by
  rw [parsePrimary]
  split <;> simp_all [Parsed.pair]

/-- A string is read as a literal of no value. -/
theorem pair_parsePrimary_string (h : first.kind = .string) (hv : ∀ n, first.value ≠ .integer n) :
    (parsePrimary b first t).pair = (.literal first.start .string, t) := by
  rw [parsePrimary]
  split <;> simp_all [Parsed.pair]

/-- Any other token is a fault, and the stream is broken with it. -/
theorem pair_parsePrimary_fault (h : first.kind ∉ [.name, .openParen, .double, .string])
    (hv : ∀ n, first.value ≠ .integer n) :
    (parsePrimary b first t).pair =
      (.fault ⟨.unexpected starts first.kind, first.start⟩, .broken ⟨.unexpected starts first.kind, first.start⟩) := by
  rw [parsePrimary]
  split <;> simp_all [Parsed.pair]

/-- A name in front of an opening parenthesis is called. -/
theorem pair_parseName_call (h : first.kind = .openParen) :
    (parseName b x (.more first rest)).pair = (.call x (parseArguments rest).pair.1, (parseArguments rest).pair.2) := by
  rw [parseName]
  split <;> simp_all [Parsed.pair]

/-- A name in front of an assignment sign is assigned where an assignment may come first. -/
theorem pair_parseName_assign (h : first.kind = .assign) :
    (parseName false x (.more first rest)).pair = (.assign x (parse rest).pair.1, (parse rest).pair.2) := by
  rw [parseName]
  split <;> simp_all [Parsed.pair]

/-- In an operand the assignment is a fault, at the place of the name. -/
theorem pair_parseName_fault (h : first.kind = .assign) (x : Ident) (rest : TokenStream) :
    (parseName true x (.more first rest)).pair =
      (.fault ⟨.assignmentAsOperand x.name, x.pos⟩, .broken ⟨.assignmentAsOperand x.name, x.pos⟩) := by
  rw [parseName]
  split <;> simp_all [Parsed.pair]

/-- A name in front of anything else is a variable. -/
theorem pair_parseName_var (ht : t.nextKind? = some k) (hk : k ≠ .openParen ∧ k ≠ .assign) :
    (parseName b x t).pair = (.var x, t) := by
  cases t with
  | broken => simp at ht
  | done pos => rw [parseName]; rfl
  | more first rest =>
    obtain rfl : first.kind = k := Option.some.inj ht
    rw [parseName]
    split <;> simp_all [Parsed.pair]

/-- There are no arguments if the closing parenthesis comes next. -/
theorem pair_parseArguments_none (h : first.kind = .closeParen) :
    (parseArguments (.more first rest)).pair = ([], rest) := by
  rw [parseArguments, if_pos (by simp [TokenStream.startsWith_eq, h])]
  rfl

/-- Anything else is read as at least one argument. -/
theorem pair_parseArguments_some (h : t.nextKind? ≠ some .closeParen) :
    (parseArguments t).pair = (parseArgumentList t).pair := by
  rw [parseArguments, if_neg (by simp [TokenStream.startsWith_eq, h])]
  rfl

/-- Behind a comma the list of arguments goes on. -/
theorem pair_parseArgumentList_cons (ht : (parse t).pair.2 = .more first rest) (h : first.kind = .comma) :
    (parseArgumentList t).pair =
      ((parse t).pair.1 :: (parseArgumentList rest).pair.1, (parseArgumentList rest).pair.2) := by
  rw [parseArgumentList]
  generalize parse t = p at ht ⊢
  obtain ⟨e, t', hle⟩ := p
  obtain rfl : t' = .more first rest := ht
  simp only
  rw [dif_pos (by simp [TokenStream.startsWith_eq, h])]
  rfl

/-- The list ends at the closing parenthesis. -/
theorem pair_parseArgumentList_one (ht : (parse t).pair.2.nextKind? ≠ some .comma) {close : Token}
    (hc : ((parse t).pair.2.take .closeParen).pair = (.ok close, rest)) :
    (parseArgumentList t).pair = ([(parse t).pair.1], rest) := by
  rw [parseArgumentList]
  generalize parse t = p at ht hc ⊢
  obtain ⟨e, t', hle⟩ := p
  simp only [Parsed.pair] at ht hc ⊢
  rw [dif_neg (by simp [TokenStream.startsWith_eq, ht])]
  split <;> simp_all

/-- A list that ends in neither way has a fault as its last argument. -/
theorem pair_parseArgumentList_cut (ht : (parse t).pair.2.nextKind? ≠ some .comma) {error : Diagnostic}
    (hc : ((parse t).pair.2.take .closeParen).pair = (.error error, rest)) :
    (parseArgumentList t).pair = ([(parse t).pair.1, .fault error], rest) := by
  rw [parseArgumentList]
  generalize parse t = p at ht hc ⊢
  obtain ⟨e, t', hle⟩ := p
  simp only [Parsed.pair] at ht hc ⊢
  rw [dif_neg (by simp [TokenStream.startsWith_eq, ht])]
  split <;> simp_all

end

/-! ## From a derivation to the tree -/

/-- No operator is a cast, an opening parenthesis or an assignment sign. -/
theorem endsBelow_of_operator {level : Precedence} {k : Token.Kind} {op : BinaryOp}
    (h : BinaryOp.ofKindAt? level k = some op) (e : Expr) : e.EndsBelow (rank level) k := by
  obtain ⟨hop, rfl⟩ := BinaryOp.ofKindAt?_eq_some.1 h
  refine ⟨fun _ => ⟨?_, ?_⟩, ?_, fun op' hop' => ?_⟩
  · rintro rfl; simp [BinaryOp.ofKind?] at hop
  · rintro rfl; simp [BinaryOp.ofKind?] at hop
  · rintro rfl; simp [BinaryOp.ofKind?] at hop
  · obtain rfl : op' = op := Option.some.inj (hop'.symm.trans hop)
    exact Nat.le_refl _

/-- Behind an expression that ends there, the loop of a level finds no operator. -/
theorem EndsBelow.pair_parseOperators {level : Precedence} {e : Expr} {k : Token.Kind} {rest : TokenStream}
    (h : e.EndsBelow (rank level + 1) k) (hk : rest.nextKind? = some k) :
    (parseOperators level e rest).pair = (e, rest) := by
  apply pair_parseOperators_stop
  intro k' hk'
  obtain rfl : k = k' := Option.some.inj (hk.symm.trans hk')
  cases hop : BinaryOp.ofKindAt? level k with
  | none => rfl
  | some op =>
    rw [BinaryOp.ofKindAt?_eq_some] at hop
    obtain ⟨hop, rfl⟩ := hop
    exact absurd (h.operator op hop) (by omega)

/-- What starts an expression and ends where no operator and no cast follows is the whole expression. -/
theorem Ends.pair_parse {t rest : TokenStream} {e : Expr} {k : Token.Kind} (h : e.Ends k) (hk : rest.nextKind? = some k)
    (hu : (parseUnary false t).pair = (e, rest)) : (parse t).pair = (e, rest) := by
  have hcast : (parseCast false t).pair = (e, rest) := by
    rw [pair_parseCast, hu]
    exact pair_parseCasts_stop hk h.cast
  have hmul : (parseLevel .multiplicative false t).pair = (e, rest) := by
    rw [pair_parseLevel, pair_parseOperand_multiplicative, hcast]
    exact (h.below _).pair_parseOperators hk
  have hadd : (parseLevel .additive false t).pair = (e, rest) := by
    rw [pair_parseLevel, pair_parseOperand_additive, hmul]
    exact (h.below _).pair_parseOperators hk
  rw [Expr.pair_parse, pair_parseLevel, pair_parseOperand_relational, hadd]
  exact (h.below _).pair_parseOperators hk

end Expr

namespace Grammar

open C0Stack.Expr TokenStream

/-- All of the tokens have a good shape. -/
def Shaped (ts : List Token) : Prop := ∀ t ∈ ts, t.WellShaped

/-- The parts of a list of tokens with a good shape have one. -/
theorem Shaped.of_append {ts us : List Token} (h : Shaped (ts ++ us)) : Shaped ts ∧ Shaped us :=
  ⟨fun t ht => h t (List.mem_append_left us ht), fun t ht => h t (List.mem_append_right ts ht)⟩

/-- So have the first token and those behind it. -/
theorem Shaped.of_cons {t : Token} {ts : List Token} (h : Shaped (t :: ts)) : t.WellShaped ∧ Shaped ts :=
  List.forall_mem_cons.1 h

/-- Where an expression starts, no token of another kind comes next. -/
theorem Starts.nextKind?_ne {ts : List Token} (h : Starts ts) (hs : Shaped ts) (rest : TokenStream) {k : Token.Kind}
    (hk : k ∉ starts) : (rest.prepend ts).nextKind? ≠ some k := by
  obtain ⟨first, us, rfl, hfirst⟩ := h
  rw [prepend_cons, nextKind?_more]
  rintro ⟨⟩
  rcases hfirst with hfirst | hint
  · exact hk hfirst
  · exact hk (by simp [starts, hs.of_cons.1.2 hint])

/-- A list of arguments starts with its first argument. -/
theorem ArgumentList.starts {ts : List Token} {args : List Expr} (h : ArgumentList ts args) : Starts ts := by
  cases h with
  | one he => exact he.starts.append _
  | cons he => exact he.starts.append _

mutual

/-- The tokens of an expression are read as its tree, if the token behind them does not go on with it. -/
theorem Expression.pair_parse {ts : List Token} {e : Expr} {rest : TokenStream} {k : Token.Kind} :
    Expression ts e → Shaped ts → rest.nextKind? = some k → e.Ends k → (parse (rest.prepend ts)).pair = (e, rest)
  | .assign hx hsign he, hs, hk, hend => by
    refine hend.pair_parse hk ?_
    have hval := he.pair_parse hs.of_cons.2.of_cons.2 hk ⟨hend.name, hend.cast, hend.operator⟩
    rw [prepend_cons, prepend_cons, pair_parseUnary_primary (by simp [hx]),
      pair_parsePrimary_name hx (hs.of_cons.1.value_ne (by simp [hx])), pair_parseName_assign hsign, hval]
  | .value h, hs, hk, hend => by
    rw [Expr.pair_parse, h.pair_parseLevel hs hk (hend.below _)]
    exact (hend.below _).pair_parseOperators hk

/-- Operands and operators of one level are read up to where the loop of that level goes on. -/
theorem Level.pair_parseLevel {level : Precedence} {ts : List Token} {e : Expr} {rest : TokenStream} {k : Token.Kind} {b : Bool} :
    Level level ts e → Shaped ts → rest.nextKind? = some k → e.EndsBelow (rank level) k →
      (parseLevel level b (rest.prepend ts)).pair = (parseOperators level e rest).pair
  | .operand h, hs, hk, hend => by
    rw [Expr.pair_parseLevel, h.pair_parseOperand hs hk hend]
  | .binary hl hop hr, hs, hk, hend => by
    have hs := hs.of_append
    have hright := hr.pair_parseOperand (b := true) hs.2.of_cons.2 hk ⟨hend.name, hend.cast, hend.operator⟩
    rw [prepend_append, prepend_cons, hl.pair_parseLevel hs.1 (nextKind?_more _ _) (endsBelow_of_operator hop _),
      pair_parseOperators_more hop, hright]

/-- The same for an operand, where only tighter operators would go on with it. -/
theorem Operand.pair_parseOperand {level : Precedence} {ts : List Token} {e : Expr} {rest : TokenStream} {k : Token.Kind}
    {b : Bool} :
    Operand level ts e → Shaped ts → rest.nextKind? = some k → e.EndsBelow (rank level) k →
      (parseOperand level b (rest.prepend ts)).pair = (e, rest)
  | .relational h, hs, hk, hend => by
    rw [pair_parseOperand_relational, h.pair_parseLevel hs hk (hend.mono (by decide))]
    exact (hend.mono (by decide)).pair_parseOperators hk
  | .additive h, hs, hk, hend => by
    rw [pair_parseOperand_additive, h.pair_parseLevel hs hk (hend.mono (by decide))]
    exact (hend.mono (by decide)).pair_parseOperators hk
  | .multiplicative h, hs, hk, hend => by
    rw [pair_parseOperand_multiplicative, h.pair_parseCast hs hk hend.name]
    exact pair_parseCasts_stop hk hend.cast

/-- A unary expression and some casts are read up to where the loop of casts goes on. -/
theorem Cast.pair_parseCast {ts : List Token} {e : Expr} {rest : TokenStream} {k : Token.Kind} {b : Bool} :
    Cast ts e → Shaped ts → rest.nextKind? = some k → e.NameEnds k →
      (parseCast b (rest.prepend ts)).pair = (parseCasts e rest).pair
  | .unary h, hs, hk, hend => by
    rw [Expr.pair_parseCast, h.pair_parseUnary hs hk hend]
  | .cast h hword hty, hs, hk, hend => by
    rw [prepend_append, prepend_cons, prepend_cons, prepend_nil,
      h.pair_parseCast hs.of_append.1 (nextKind?_more _ _) (by simp [NameEnds, hword])]
    exact pair_parseCasts_as hword hty

/-- The same for a unary expression, where only a name that comes last could be taken on. -/
theorem Unary.pair_parseUnary {ts : List Token} {e : Expr} {rest : TokenStream} {k : Token.Kind} {b : Bool} :
    Unary ts e → Shaped ts → rest.nextKind? = some k → e.NameEnds k → (parseUnary b (rest.prepend ts)).pair = (e, rest)
  | .primary h, hs, hk, hend => h.pair_parseUnary hs hk hend
  | .neg hsign h, hs, hk, hend => by
    have hop := h.pair_parseUnary (b := true) hs.of_cons.2 hk hend
    rw [prepend_cons, pair_parseUnary_minus hsign, hop]

/-- The same for a primary expression, which is read as a unary one. -/
theorem Primary.pair_parseUnary {ts : List Token} {e : Expr} {rest : TokenStream} {k : Token.Kind} {b : Bool} :
    Primary ts e → Shaped ts → rest.nextKind? = some k → e.NameEnds k → (parseUnary b (rest.prepend ts)).pair = (e, rest)
  | .int hv, hs, _, _ => by
    have hkind := hs.of_cons.1.2 ⟨_, hv⟩
    exact (pair_parseUnary_primary (by simp [hkind])).trans (pair_parsePrimary_integer hv)
  | .double hkind, hs, _, _ =>
    (pair_parseUnary_primary (by simp [hkind])).trans
      (pair_parsePrimary_double hkind (hs.of_cons.1.value_ne (by simp [hkind])))
  | .string hkind, hs, _, _ =>
    (pair_parseUnary_primary (by simp [hkind])).trans
      (pair_parsePrimary_string hkind (hs.of_cons.1.value_ne (by simp [hkind])))
  | .var hx, hs, hk, hend => by
    rw [prepend_cons, prepend_nil, pair_parseUnary_primary (by simp [hx]),
      pair_parsePrimary_name hx (hs.of_cons.1.value_ne (by simp [hx]))]
    exact pair_parseName_var hk (hend rfl)
  | .call hf hopen hargs, hs, _, _ => by
    rw [prepend_cons, prepend_cons, pair_parseUnary_primary (by simp [hf]),
      pair_parsePrimary_name hf (hs.of_cons.1.value_ne (by simp [hf])), pair_parseName_call hopen,
      hargs.pair_parseArguments hs.of_cons.2.of_cons.2]
  | @Primary.paren _ close us inner hopen he hclose, hs, _, _ => by
    have hinner : (parse ((more close rest).prepend us)).pair = (inner, more close rest) :=
      he.pair_parse hs.of_cons.2.of_append.1 (nextKind?_more _ _) (ends_of_mem_separators (by simp [separators, hclose]) _)
    have htake : ((parse ((more close rest).prepend us)).pair.2.take .closeParen).pair = (.ok close, rest) := by
      rw [hinner]
      exact pair_take_more hclose rest
    rw [prepend_cons, prepend_concat, pair_parseUnary_primary (by simp [hopen]),
      pair_parsePrimary_openParen hopen (hs.of_cons.1.value_ne (by simp [hopen])) htake, hinner]

/-- The arguments of a call are read up to the closing parenthesis, whatever comes behind it. -/
theorem Arguments.pair_parseArguments {ts : List Token} {args : List Expr} {rest : TokenStream} :
    Arguments ts args → Shaped ts → (parseArguments (rest.prepend ts)).pair = (args, rest)
  | .none hclose, _ => pair_parseArguments_none hclose
  | .some h, hs => by
    rw [pair_parseArguments_some (h.starts.nextKind?_ne hs rest (by simp [starts])), h.pair_parseArgumentList hs]

/-- The same for a list of at least one argument. -/
theorem ArgumentList.pair_parseArgumentList {ts : List Token} {args : List Expr} {rest : TokenStream} :
    ArgumentList ts args → Shaped ts → (parseArgumentList (rest.prepend ts)).pair = (args, rest)
  | @ArgumentList.one us close e he hclose, hs => by
    have hinner : (parse ((more close rest).prepend us)).pair = (e, more close rest) :=
      he.pair_parse hs.of_append.1 (nextKind?_more _ _) (ends_of_mem_separators (by simp [separators, hclose]) _)
    have htake : ((parse ((more close rest).prepend us)).pair.2.take .closeParen).pair = (.ok close, rest) := by
      rw [hinner]
      exact pair_take_more hclose rest
    rw [prepend_concat, pair_parseArgumentList_one (by simp [hinner, hclose]) htake, hinner]
  | @ArgumentList.cons us vs comma e es he hcomma h, hs => by
    have hinner : (parse ((more comma (rest.prepend vs)).prepend us)).pair = (e, more comma (rest.prepend vs)) :=
      he.pair_parse hs.of_append.1 (nextKind?_more _ _) (ends_of_mem_separators (by simp [separators, hcomma]) _)
    rw [prepend_append, prepend_cons, pair_parseArgumentList_cons (by rw [hinner]) hcomma, hinner,
      h.pair_parseArgumentList hs.of_append.2.of_cons.2]

end

end Grammar

/-! ## From the tree to a derivation -/

namespace Grammar

/-- The tokens up to the rest derive what was read, which may stop there. -/
def Reads {α : Type} (G : List Token → α → Prop) (stops : α → TokenStream → Prop) (t : TokenStream) (r : α × TokenStream) :
    Prop :=
  ∃ ts, t = r.2.prepend ts ∧ G ts r.1 ∧ stops r.1 r.2

/-- There is a fault in what was read, and the stream behind it is broken. -/
def Faulty {α : Type} (whole : α → Prop) (r : α × TokenStream) : Prop := ¬ whole r.1 ∧ ∃ error, r.2 = .broken error

/-- What can be read in only one way may stop anywhere. -/
def Anywhere {α : Type} (_ : α) (_ : TokenStream) : Prop := True

end Grammar

namespace Expr

mutual

/-- There is no fault in the tree. -/
def Whole : Expr → Prop
  | int _ _ | literal _ _ | var _ => True
  | call _ args => AllWhole args
  | assign _ value => value.Whole
  | paren _ inner => inner.Whole
  | neg _ operand => operand.Whole
  | cast value _ _ => value.Whole
  | binary left _ _ right => left.Whole ∧ right.Whole
  | fault _ | cut _ _ => False

/-- There is no fault in any of the trees. -/
def AllWhole : List Expr → Prop
  | [] => True
  | e :: es => e.Whole ∧ AllWhole es

end

/-- The stream behind the expression can be read on, and does not go on with the expression. -/
def Stops (bound : Nat) (e : Expr) (rest : TokenStream) : Prop := ∃ k, rest.nextKind? = some k ∧ e.EndsBelow bound k

/-- A name that the expression ends in is read as a variable. -/
def NameStops (e : Expr) (rest : TokenStream) : Prop := ∀ k, rest.nextKind? = some k → e.NameEnds k

open Grammar TokenStream

/-- The loop of casts, behind what has been read as a cast so far. -/
theorem reads_parseCasts (t : TokenStream) {e : Expr} {ts : List Token} (he : Cast ts e) (hname : e.NameStops t) :
    Reads (fun us => Cast (ts ++ us)) (Stops (rank .multiplicative)) t (parseCasts e t).pair ∨
      Faulty Whole (parseCasts e t).pair := by
  cases t with
  | broken error =>
    right
    rw [parseCasts]
    exact ⟨id, error, rfl⟩
  | done pos =>
    left
    rw [pair_parseCasts_stop (nextKind?_done pos) (by simp)]
    exact ⟨[], rfl, by simpa using he, _, rfl, (ends_of_mem_separators (by simp [separators]) e).below _⟩
  | more first rest =>
    by_cases hfirst : first.kind = .kwAs
    · obtain ⟨ty, rest', rfl, hty, -⟩ | ⟨error, herror⟩ := take_cases .name (by simp) rest
      · rw [pair_parseCasts_as hfirst hty]
        have ih := reads_parseCasts rest' (he.cast hfirst hty) (fun _ _ h => by simp [endsInName] at h)
        refine ih.imp_left ?_
        rintro ⟨us, hus, hcast, hstop⟩
        exact ⟨first :: ty :: us, by rw [prepend_cons, prepend_cons, ← hus], by simpa using hcast, hstop⟩
      · right
        rw [pair_parseCasts_cut hfirst herror]
        exact ⟨id, error, rfl⟩
    · left
      rw [pair_parseCasts_stop (nextKind?_more _ _) hfirst]
      refine ⟨[], rfl, by simpa using he, _, rfl, hname _ rfl, hfirst, fun op _ => ?_⟩
      cases op <;> decide
termination_by t.length

/-- A reader of a layer of the grammar gives a tree of the layer or, where an assignment may come first, a whole expression. -/
def ReadsLayer (G : List Token → Expr → Prop) (stops : Expr → TokenStream → Prop) (b : Bool) (t : TokenStream)
    (r : Expr × TokenStream) : Prop :=
  Reads G stops t r ∨ (b = false ∧ Reads Expression (Stops (rank .relational + 1)) t r) ∨ Faulty Whole r

/-- Behind a fault the loop of operators reads nothing more. -/
theorem parseOperators_of_faulty {level : Precedence} {r : Expr × TokenStream} (h : Faulty Whole r) :
    Faulty Whole (parseOperators level r.1 r.2).pair := by
  obtain ⟨hwhole, error, herror⟩ := h
  rw [pair_parseOperators_stop (by simp [herror])]
  exact ⟨hwhole, error, herror⟩

/-- No level is looser than that of comparisons. -/
theorem rank_le (level : Precedence) : rank level ≤ rank .relational := by
  cases level <;> decide

mutual

/-- An expression is read as the grammar derives it, or there is a fault in the tree. -/
theorem reads_parse (t : TokenStream) :
    Reads Expression (Stops (rank .relational + 1)) t (parse t).pair ∨ Faulty Whole (parse t).pair := by
  rw [pair_parse]
  rcases reads_parseLevel .relational false t with ⟨ts, ht, hlevel, hstop⟩ | ⟨-, h⟩ | h
  · exact .inl ⟨ts, ht, .value hlevel, hstop⟩
  · exact .inl h
  · exact .inr h
termination_by 16 * t.length + 9
decreasing_by simp [rank]

/-- A level is read as the grammar derives it, or as an assignment that comes first, or there is a fault in the tree. -/
theorem reads_parseLevel (level : Precedence) (b : Bool) (t : TokenStream) :
    ReadsLayer (Level level) (Stops (rank level + 1)) b t (parseLevel level b t).pair := by
  rw [pair_parseLevel]
  have hle := (parseOperand level b t).length_le
  rcases reads_parseOperand level b t with ⟨ts, ht, hop, hstop⟩ | ⟨hb, ts, ht, he, k, hk, hend⟩ | h
  · rcases reads_parseOperators level (parseOperand level b t).pair.2 (.operand hop) hstop with ⟨us, hus, hlevel, hstop'⟩ | h
    · exact .inl ⟨ts ++ us, by rw [prepend_append, ← hus, ← ht], hlevel, hstop'⟩
    · exact .inr (.inr h)
  · rw [(hend.mono (Nat.succ_le_succ (rank_le level))).pair_parseOperators hk]
    exact .inr (.inl ⟨hb, ts, ht, he, k, hk, hend⟩)
  · exact .inr (.inr (parseOperators_of_faulty h))
termination_by 16 * t.length + rank level
decreasing_by all_goals cases level <;> simp [rank, Parsed.pair] <;> omega

/-- The loop of operators of one level, behind what has been read so far. -/
theorem reads_parseOperators (level : Precedence) (t : TokenStream) {left : Expr} {ts : List Token}
    (hl : Level level ts left) (hstop : Stops (rank level) left t) :
    Reads (fun us => Level level (ts ++ us)) (Stops (rank level + 1)) t (parseOperators level left t).pair ∨
      Faulty Whole (parseOperators level left t).pair := by
  obtain ⟨k, hk, hend⟩ := hstop
  cases hop : BinaryOp.ofKindAt? level k with
  | none =>
    left
    rw [pair_parseOperators_stop (by simp [hk, hop])]
    refine ⟨[], rfl, by simpa using hl, k, hk, hend.name, hend.cast, fun op hop' => ?_⟩
    have hne : op.precedence ≠ level := fun h => by simp [BinaryOp.ofKindAt?_eq_some.2 ⟨hop', h⟩] at hop
    have hle := hend.operator op hop'
    revert hne hle
    cases op <;> cases level <;> simp [rank, BinaryOp.precedence]
  | some op =>
    cases ht : t with
    | done pos => subst ht; cases hk; cases level <;> simp [BinaryOp.ofKindAt?, BinaryOp.ofKind?] at hop
    | broken error => simp [ht] at hk
    | more first rest =>
      have hlen : t.length = rest.length + 1 := by rw [ht, length_more]
      obtain rfl : first.kind = k := by simpa [ht] using hk
      rw [pair_parseOperators_more hop]
      have hle := (parseOperand level true rest).length_le
      rcases reads_parseOperand level true rest with ⟨us, hus, hright, hstop'⟩ | ⟨hb, -⟩ | h
      · have hstop'' : Stops (rank level) (.binary left op first.start (parseOperand level true rest).pair.1)
            (parseOperand level true rest).pair.2 := by
          obtain ⟨k', hk', hend'⟩ := hstop'
          exact ⟨k', hk', hend'.name, hend'.cast, hend'.operator⟩
        refine (reads_parseOperators level (parseOperand level true rest).pair.2 (hl.binary hop hright) hstop'').imp_left ?_
        rintro ⟨vs, hvs, hlevel, hstop⟩
        exact ⟨first :: us ++ vs, by rw [prepend_append, ← hvs, prepend_cons, ← hus], by simpa using hlevel, hstop⟩
      · simp at hb
      · right
        exact parseOperators_of_faulty (r := (.binary left op first.start _, _)) ⟨fun hw => h.1 hw.2, h.2⟩
termination_by 16 * t.length
decreasing_by
  · cases level <;> simp only [rank] <;> omega
  · simp only [Parsed.pair]
    omega

/-- The same for an operand of a level. -/
theorem reads_parseOperand (level : Precedence) (b : Bool) (t : TokenStream) :
    ReadsLayer (Operand level) (Stops (rank level)) b t (parseOperand level b t).pair := by
  cases level with
  | relational =>
    rw [pair_parseOperand_relational]
    refine (reads_parseLevel .additive b t).imp_left ?_
    rintro ⟨ts, ht, hlevel, k, hk, hend⟩
    refine ⟨ts, ht, .relational hlevel, k, hk, hend.name, hend.cast, fun op hop => ?_⟩
    have hle := hend.operator op hop
    revert hle
    cases op <;> decide
  | additive =>
    rw [pair_parseOperand_additive]
    refine (reads_parseLevel .multiplicative b t).imp_left ?_
    rintro ⟨ts, ht, hlevel, k, hk, hend⟩
    refine ⟨ts, ht, .additive hlevel, k, hk, hend.name, hend.cast, fun op hop => ?_⟩
    have hle := hend.operator op hop
    revert hle
    cases op <;> decide
  | multiplicative =>
    rw [pair_parseOperand_multiplicative]
    refine (reads_parseCast b t).imp_left ?_
    rintro ⟨ts, ht, hcast, hstop⟩
    exact ⟨ts, ht, .multiplicative hcast, hstop⟩
termination_by 16 * t.length + rank level - 1
decreasing_by all_goals (dsimp only [rank]; omega)

/-- The same for a cast. -/
theorem reads_parseCast (b : Bool) (t : TokenStream) :
    ReadsLayer Cast (Stops (rank .multiplicative)) b t (parseCast b t).pair := by
  rw [pair_parseCast]
  rcases reads_parseUnary b t with ⟨ts, ht, hunary, hname⟩ | ⟨hb, ts, ht, he, k, hk, hend⟩ | ⟨hwhole, error, herror⟩
  · rcases reads_parseCasts (parseUnary b t).pair.2 (.unary hunary) hname with ⟨us, hus, hcast, hstop⟩ | h
    · exact .inl ⟨ts ++ us, by rw [prepend_append, ← hus, ← ht], hcast, hstop⟩
    · exact .inr (.inr h)
  · rw [pair_parseCasts_stop hk hend.cast]
    exact .inr (.inl ⟨hb, ts, ht, he, k, hk, hend⟩)
  · right; right
    rw [herror, parseCasts]
    exact ⟨id, error, rfl⟩
termination_by 16 * t.length + 2

/-- The same for a unary expression. -/
theorem reads_parseUnary (b : Bool) (t : TokenStream) : ReadsLayer Unary NameStops b t (parseUnary b t).pair := by
  cases t with
  | done pos =>
    rw [parseUnary]
    exact .inr (.inr ⟨id, _, rfl⟩)
  | broken error =>
    rw [parseUnary]
    exact .inr (.inr ⟨id, _, rfl⟩)
  | more first rest =>
    by_cases hfirst : first.kind = .minus
    · rw [pair_parseUnary_minus hfirst]
      rcases reads_parseUnary true rest with ⟨ts, ht, hunary, hname⟩ | ⟨hb, -⟩ | ⟨hwhole, herror⟩
      · exact .inl ⟨first :: ts, by rw [prepend_cons, ← ht], .neg hfirst hunary, hname⟩
      · simp at hb
      · exact .inr (.inr ⟨hwhole, herror⟩)
    · rw [pair_parseUnary_primary hfirst]
      refine (reads_parsePrimary b first rest).imp_left ?_
      rintro ⟨ts, ht, hprimary, hname⟩
      exact ⟨ts, ht, .primary hprimary, hname⟩
termination_by 16 * t.length + 1
decreasing_by all_goals simp <;> omega

/-- The same for a primary expression, whose first token has been taken. -/
theorem reads_parsePrimary (b : Bool) (first : Token) (t : TokenStream) :
    ReadsLayer Primary NameStops b (.more first t) (parsePrimary b first t).pair := by
  by_cases hint : ∃ n, first.value = .integer n
  · obtain ⟨n, hv⟩ := hint
    rw [pair_parsePrimary_integer hv]
    exact .inl ⟨[first], rfl, .int hv, fun _ _ h => by simp [endsInName] at h⟩
  have hv : ∀ n, first.value ≠ .integer n := fun n h => hint ⟨n, h⟩
  by_cases hname : first.kind = .name
  · rw [pair_parsePrimary_name hname hv]
    exact reads_parseName b hname t
  by_cases hopen : first.kind = .openParen
  · obtain ⟨close, rest, hclose, hkind, htake⟩ | ⟨error, herror⟩ :=
      take_cases .closeParen (by simp) (parse t).pair.2
    · rw [pair_parsePrimary_openParen hopen hv htake]
      rcases reads_parse t with ⟨ts, ht, he, -⟩ | ⟨-, error, herror⟩
      · refine .inl ⟨first :: (ts ++ [close]), ?_, .paren hopen he hkind, fun _ _ h => by simp [endsInName] at h⟩
        rw [prepend_cons, prepend_concat, ← hclose, ← ht]
      · simp [hclose] at herror
    · rw [pair_parsePrimary_cut hopen hv herror]
      exact .inr (.inr ⟨id, _, rfl⟩)
  by_cases hdouble : first.kind = .double
  · rw [pair_parsePrimary_double hdouble hv]
    exact .inl ⟨[first], rfl, .double hdouble, fun _ _ h => by simp [endsInName] at h⟩
  by_cases hstring : first.kind = .string
  · rw [pair_parsePrimary_string hstring hv]
    exact .inl ⟨[first], rfl, .string hstring, fun _ _ h => by simp [endsInName] at h⟩
  rw [pair_parsePrimary_fault (by simp [hname, hopen, hdouble, hstring]) hv]
  exact .inr (.inr ⟨id, _, rfl⟩)
termination_by 16 * t.length + 15

/-- The same for a name and what comes behind it. -/
theorem reads_parseName (b : Bool) {x : Token} (hx : x.kind = .name) (t : TokenStream) :
    ReadsLayer Primary NameStops b (.more x t) (parseName b x.ident t).pair := by
  cases t with
  | done pos =>
    rw [pair_parseName_var (nextKind?_done pos) (by simp)]
    exact .inl ⟨[x], rfl, .var hx, by simp [NameStops, NameEnds]⟩
  | broken error =>
    rw [parseName]
    exact .inr (.inr ⟨id, _, rfl⟩)
  | more first rest =>
    by_cases hcall : first.kind = .openParen
    · rw [pair_parseName_call hcall]
      rcases reads_parseArguments rest with ⟨ts, ht, hargs, -⟩ | ⟨hwhole, herror⟩
      · exact .inl ⟨x :: first :: ts, by rw [prepend_cons, prepend_cons, ← ht], .call hx hcall hargs,
          fun _ _ h => by simp [endsInName] at h⟩
      · exact .inr (.inr ⟨hwhole, herror⟩)
    by_cases hassign : first.kind = .assign
    · cases b with
      | true =>
        rw [pair_parseName_fault hassign x.ident rest]
        exact .inr (.inr ⟨id, _, rfl⟩)
      | false =>
        rw [pair_parseName_assign hassign]
        rcases reads_parse rest with ⟨ts, ht, he, k, hk, hend⟩ | ⟨hwhole, herror⟩
        · exact .inr (.inl ⟨rfl, x :: first :: ts, by rw [prepend_cons, prepend_cons, ← ht], .assign hx hassign he, k, hk,
            hend.name, hend.cast, hend.operator⟩)
        · exact .inr (.inr ⟨hwhole, herror⟩)
    rw [pair_parseName_var (nextKind?_more _ _) ⟨hcall, hassign⟩]
    exact .inl ⟨[x], rfl, .var hx, by simp [NameStops, NameEnds, hcall, hassign]⟩
termination_by 16 * t.length
decreasing_by all_goals (simp; omega)

/-- The arguments of a call are read as the grammar derives them, or there is a fault in one of them. -/
theorem reads_parseArguments (t : TokenStream) :
    Reads Arguments Anywhere t (parseArguments t).pair ∨ Faulty AllWhole (parseArguments t).pair := by
  by_cases hclose : t.nextKind? = some .closeParen
  · cases t with
    | done | broken => simp at hclose
    | more close rest =>
      have hkind : close.kind = .closeParen := Option.some.inj hclose
      rw [pair_parseArguments_none hkind]
      exact .inl ⟨[close], rfl, .none hkind, trivial⟩
  · rw [pair_parseArguments_some hclose]
    refine (reads_parseArgumentList t).imp_left ?_
    rintro ⟨ts, ht, hargs, -⟩
    exact ⟨ts, ht, .some hargs, trivial⟩
termination_by 16 * t.length + 11

/-- A list of arguments is read as the grammar derives it, or there is a fault in one of them. -/
theorem reads_parseArgumentList (t : TokenStream) :
    Reads ArgumentList Anywhere t (parseArgumentList t).pair ∨ Faulty AllWhole (parseArgumentList t).pair := by
  have hparse := reads_parse t
  by_cases hcomma : (parse t).pair.2.nextKind? = some .comma
  · cases hrest : (parse t).pair.2 with
    | done | broken => simp [hrest] at hcomma
    | more comma rest =>
      have hkind : comma.kind = .comma := by simpa [hrest] using hcomma
      have hlen : rest.length < t.length := by
        have hle := (parse t).length_le
        have hrest' : (parse t).rest = .more comma rest := hrest
        rw [hrest', length_more] at hle
        omega
      rw [pair_parseArgumentList_cons hrest hkind]
      rcases hparse with ⟨ts, ht, he, -⟩ | ⟨-, error, herror⟩
      · rcases reads_parseArgumentList rest with ⟨us, hus, hargs, -⟩ | ⟨hwhole, herror⟩
        · refine .inl ⟨ts ++ comma :: us, ?_, .cons he hkind hargs, trivial⟩
          rw [prepend_append, prepend_cons, ← hus, ← hrest, ← ht]
        · exact .inr ⟨fun hw => hwhole hw.2, herror⟩
      · simp [hrest] at herror
  · obtain ⟨close, rest, hclose, hkind, htake⟩ | ⟨error, herror⟩ := take_cases .closeParen (by simp) (parse t).pair.2
    · rw [pair_parseArgumentList_one hcomma htake]
      rcases hparse with ⟨ts, ht, he, -⟩ | ⟨-, error, herror⟩
      · refine .inl ⟨ts ++ [close], ?_, .one he hkind, trivial⟩
        rw [prepend_concat, ← hclose, ← ht]
      · simp [hclose] at herror
    · rw [pair_parseArgumentList_cut hcomma herror]
      exact .inr ⟨fun hw => hw.2.1, error, rfl⟩
termination_by 16 * t.length + 10

end

end Expr

end C0Stack
