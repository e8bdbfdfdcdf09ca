import C0Stack.CompilationUnit.Parser
import C0Stack.Proofs.Grammar.Stmt

/-!
# The grammar of whole programs

`Grammar.ProgramText ts pos u` says that the tokens `ts` of a text that ends at `pos` derive the compilation unit `u`: declarations,
then functions. The reader gives exactly this unit (`Grammar.ProgramText.parse_eq`), and a unit whose end was reached is derived as
it was read (`CompilationUnit.programText_of_parse`).
-/

namespace C0Stack

namespace Grammar

/-- A parameter of a function. -/
inductive Parameter : List Token → Param → Prop
  | plain {x colon ty : Token} :
      x.kind = .name → colon.kind = .colon → ty.kind = .name → Parameter [x, colon, ty] ⟨false, x.ident, ty.ident⟩
  | constant {word x colon ty : Token} :
      word.kind = .kwConst → x.kind = .name → colon.kind = .colon → ty.kind = .name →
        Parameter [word, x, colon, ty] ⟨true, x.ident, ty.ident⟩

/-- At least one parameter, with commas between them. -/
inductive ParameterList : List Token → List Param → Prop
  | one {ts : List Token} {p : Param} : Parameter ts p → ParameterList ts [p]
  | cons {ts us : List Token} {comma : Token} {p : Param} {ps : List Param} :
      Parameter ts p → comma.kind = .comma → ParameterList us ps → ParameterList (ts ++ comma :: us) (p :: ps)

/-- What may stand between the parentheses of a function's header. -/
inductive Parameters : List Token → List Param → Prop
  | none : Parameters [] []
  | some {ts : List Token} {ps : List Param} : ParameterList ts ps → Parameters ts ps

/-- A function definition. -/
inductive FunctionDefinition : List Token → Function → Prop
  | defn {word name openParen closeParen arrow ty openBrace : Token} {ts us : List Token} {params : List Param} {body : Stmt}
      {close : Position} :
      word.kind = .kwFn → name.kind = .name → openParen.kind = .openParen → Parameters ts params →
        closeParen.kind = .closeParen → arrow.kind = .arrow → ty.kind = .name → openBrace.kind = .openBrace →
        Body us (body, close) →
        FunctionDefinition (word :: name :: openParen :: (ts ++ closeParen :: arrow :: ty :: openBrace :: us))
          (.defn word.start name.ident params ty.ident body close)

/-- Declarations in sequence. -/
inductive Declarations : List Token → Stmt → Prop
  | nil : Declarations [] .nil
  | cons {ts us : List Token} {s ss : Stmt} :
      Declaration ts s → Declarations us ss → Declarations (ts ++ us) (.seq s ss)

/-- Functions in sequence. -/
inductive Functions : List Token → List Function → Prop
  | nil : Functions [] []
  | cons {ts us : List Token} {f : Function} {fs : List Function} :
      FunctionDefinition ts f → Functions us fs → Functions (ts ++ us) (f :: fs)

/-- A whole program text, which ends at `pos`. -/
inductive ProgramText : List Token → Position → CompilationUnit → Prop
  | mk {ts us : List Token} {pos : Position} {globals : Stmt} {functions : List Function} :
      Declarations ts globals → Functions us functions → ProgramText (ts ++ us) pos ⟨globals, functions, .ok pos⟩

end Grammar

/-! ## What each reader does -/

/-- A parameter is a name and a type, perhaps behind `const`. -/
theorem Param.pair_parse (t : TokenStream) :
    (Param.parse t).pair =
      match (if t.startsWith .kwConst then t.tail else t).takeTyped with
      | (.ok (x, ty), rest) => (.ok ⟨t.startsWith .kwConst, x.ident, ty.ident⟩, rest)
      | (.error error, rest) => (.error error, rest) := by
  unfold Param.parse TokenStream.takeTyped
  simp only [Parsed.pair]
  split <;> simp_all

namespace Function

section

variable {t t₁ rest : TokenStream} {p : Param}

/-- Behind a comma the list of parameters goes on. -/
theorem pair_parseParamList_cons {comma : Token} (h : (Param.parse t).pair = (.ok p, .more comma rest))
    (hcomma : comma.kind = .comma) :
    (parseParamList t).pair = (p :: (parseParamList rest).pair.1, (parseParamList rest).pair.2) := by
  rw [parseParamList]
  generalize Param.parse t = r at h ⊢
  obtain ⟨_, rfl⟩ := Parsed.eq_of_pair h
  dsimp only
  rw [dif_pos (by simp [TokenStream.startsWith_eq, hcomma])]
  rfl

/-- Before any other token it ends. -/
theorem pair_parseParamList_one (h : (Param.parse t).pair = (.ok p, t₁)) (hcomma : t₁.nextKind? ≠ some .comma) :
    (parseParamList t).pair = ([p], t₁) := by
  rw [parseParamList]
  generalize Param.parse t = r at h ⊢
  obtain ⟨_, rfl⟩ := Parsed.eq_of_pair h
  dsimp only
  rw [dif_neg (by simp [TokenStream.startsWith_eq, hcomma])]
  rfl

/-- A fault in a parameter ends the list in front of it. -/
theorem pair_parseParamList_fault {error : Diagnostic} (h : (Param.parse t).pair = (.error error, t₁)) :
    (parseParamList t).pair = ([], t₁) := by
  rw [parseParamList]
  generalize Param.parse t = r at h ⊢
  obtain ⟨_, rfl⟩ := Parsed.eq_of_pair h
  rfl

/-- There are no parameters if the closing parenthesis comes next. -/
theorem pair_parseParams_none (h : t.nextKind? = some .closeParen) : (parseParams t).pair = ([], t) := by
  unfold parseParams
  rw [if_pos (by simp [TokenStream.startsWith_eq, h])]
  rfl

/-- Anything else is read as at least one parameter. -/
theorem pair_parseParams_some (h : t.nextKind? ≠ some .closeParen) : (parseParams t).pair = (parseParamList t).pair := by
  unfold parseParams
  rw [if_neg (by simp [TokenStream.startsWith_eq, h])]
  rfl

/-- What is read of a function up to the opening brace of its body: the tokens, or the faults in their place. -/
structure Header where
  keyword : Except Diagnostic Token
  name : Except Diagnostic Token
  params : List Param
  returns : Except Diagnostic Token
  brace : Except Diagnostic Token
  rest : TokenStream

/-- The header that the stream starts with. -/
def header (t : TokenStream) : Header :=
  let keyword := t.take .kwFn
  let name := keyword.rest.take .name
  let params := parseParams (name.rest.take .openParen).rest
  let returns := ((params.rest.take .closeParen).rest.take .arrow).rest.take .name
  let brace := returns.rest.take .openBrace
  ⟨keyword.value, name.value, params.value, returns.value, brace.value, brace.rest⟩

/-- The function with the header, and the stream behind it. -/
def ofHeader : Header → Function × TokenStream
  | ⟨.ok keyword, .ok name, params, .ok returns, .ok _, t⟩ =>
    (.defn keyword.start name.ident params returns.ident (Stmt.parseBody t).pair.1.1 (Stmt.parseBody t).pair.1.2,
      (Stmt.parseBody t).pair.2)
  | ⟨.ok keyword, .ok name, params, .ok returns, .error error, t⟩ =>
    (.defn keyword.start name.ident params returns.ident (.fault error) error.pos, t)
  | ⟨.ok keyword, .ok _, params, .error error, _, t⟩ => (.fault keyword.start params error, t)
  | ⟨.ok keyword, .error error, _, _, _, t⟩ => (.fault keyword.start [] error, t)
  | ⟨.error error, _, _, _, _, t⟩ => (.fault error.pos [] error, t)

/-- A function is read by its header: what is proved of the reader is proved of the ways in which a header can end. -/
theorem pair_parse_eq_ofHeader (t : TokenStream) : (parse t).pair = ofHeader (header t) := by
  unfold parse header
  rcases t.take .kwFn with ⟨keyword, t₁, _⟩
  dsimp only
  rcases t₁.take .name with ⟨name, t₂, _⟩
  dsimp only
  rcases t₂.take .openParen with ⟨_, t₃, _⟩
  dsimp only
  rcases parseParams t₃ with ⟨params, t₄, _⟩
  dsimp only
  rcases t₄.take .closeParen with ⟨_, t₅, _⟩
  dsimp only
  rcases t₅.take .arrow with ⟨_, t₆, _⟩
  dsimp only
  rcases t₆.take .name with ⟨returns, t₇, _⟩
  dsimp only
  rcases t₇.take .openBrace with ⟨brace, t₈, _⟩
  cases keyword <;> cases name <;> cases returns <;> cases brace <;> rfl

/-- The header of tokens that are all of the right kinds. -/
theorem header_eq {word name openParen closeParen arrow ty openBrace : Token} {params : List Param} (hword : word.kind = .kwFn)
    (hname : name.kind = .name) (hopen : openParen.kind = .openParen)
    (hparams : (parseParams t).pair = (params, .more closeParen (.more arrow (.more ty (.more openBrace rest)))))
    (hclose : closeParen.kind = .closeParen) (harrow : arrow.kind = .arrow) (hty : ty.kind = .name)
    (hbrace : openBrace.kind = .openBrace) :
    header (.more word (.more name (.more openParen t))) = ⟨.ok word, .ok name, params, .ok ty, .ok openBrace, rest⟩ := by
  obtain ⟨_, hparams⟩ := Parsed.eq_of_pair hparams
  unfold header
  rw [TokenStream.take_more hword]
  dsimp only
  rw [TokenStream.take_more hname]
  dsimp only
  rw [TokenStream.take_more hopen]
  dsimp only
  rw [hparams]
  dsimp only
  rw [TokenStream.take_more hclose]
  dsimp only
  rw [TokenStream.take_more harrow]
  dsimp only
  rw [TokenStream.take_more hty]
  dsimp only
  rw [TokenStream.take_more hbrace]

/-- Behind such a header the body is read. -/
theorem pair_parse {word name openParen closeParen arrow ty openBrace : Token} {params : List Param} (hword : word.kind = .kwFn)
    (hname : name.kind = .name) (hopen : openParen.kind = .openParen)
    (hparams : (parseParams t).pair = (params, .more closeParen (.more arrow (.more ty (.more openBrace rest)))))
    (hclose : closeParen.kind = .closeParen) (harrow : arrow.kind = .arrow) (hty : ty.kind = .name)
    (hbrace : openBrace.kind = .openBrace) :
    (parse (.more word (.more name (.more openParen t)))).pair =
      (.defn word.start name.ident params ty.ident (Stmt.parseBody rest).pair.1.1 (Stmt.parseBody rest).pair.1.2,
        (Stmt.parseBody rest).pair.2) := by
  rw [pair_parse_eq_ofHeader, header_eq hword hname hopen hparams hclose harrow hty hbrace]
  rfl

/-- Where the stream goes on behind the parameters, it went on in front of them. -/
theorem nextKind?_of_parseParams (h : (parseParams t).pair.2.nextKind? ≠ none) : t.nextKind? ≠ none := by
  intro ht
  cases t with
  | broken error =>
    rw [pair_parseParams_some (by simp), pair_parseParamList_fault (Param.pair_parse _)] at h
    exact h rfl
  | done pos => simp at ht
  | more first rest => simp at ht

/-- There is no fault in the definition. -/
def Whole : Function → Prop
  | defn _ _ _ _ body _ => body.Whole
  | fault .. => False

/-- Without the opening brace nothing is read behind the header, and there is a fault in the function. -/
theorem ofHeader_of_brace {h : Header} {error : Diagnostic} (hbrace : h.brace = .error error) :
    (ofHeader h).2 = h.rest ∧ ¬ (ofHeader h).1.Whole := by
  obtain ⟨keyword, name, params, returns, brace, rest⟩ := h
  subst hbrace
  cases keyword <;> cases name <;> cases returns <;> exact ⟨rfl, id⟩

/-- The header and the opening brace come next, or the stream breaks in front of the body. -/
theorem parse_cases (t : TokenStream) :
    (∃ word name openParen t₃ closeParen arrow ty openBrace rest, word.kind = .kwFn ∧ name.kind = .name ∧
      openParen.kind = .openParen ∧ closeParen.kind = .closeParen ∧ arrow.kind = .arrow ∧ ty.kind = .name ∧
      openBrace.kind = .openBrace ∧ t = .more word (.more name (.more openParen t₃)) ∧
      (parseParams t₃).pair.2 = .more closeParen (.more arrow (.more ty (.more openBrace rest)))) ∨
      ∃ error, (parse t).pair.2 = .broken error ∧ (header t).rest = .broken error ∧ ¬ (parse t).pair.1.Whole := by
  let t₃ := (((t.take .kwFn).rest.take .name).rest.take .openParen).rest
  let t₇ := ((((parseParams t₃).rest.take .closeParen).rest.take .arrow).rest.take .name).rest
  rcases TokenStream.take_cases .openBrace (by simp) t₇ with ⟨openBrace, rest, ht₇, hbrace, -⟩ | ⟨error, herror⟩
  · -- the stream goes on in front of the brace, so that every token before it has been taken
    have h₇ : t₇.nextKind? ≠ none := by simp [ht₇]
    obtain ⟨ty, hty, ht₆⟩ := TokenStream.exists_of_take .name (by simp) h₇
    obtain ⟨arrow, harrow, ht₅⟩ := TokenStream.exists_of_take .arrow (by simp)
      (t := ((parseParams t₃).rest.take .closeParen).rest) (by simp [ht₆])
    obtain ⟨closeParen, hclose, ht₄⟩ := TokenStream.exists_of_take .closeParen (by simp) (t := (parseParams t₃).rest) (by simp [ht₅])
    have h₃ : t₃.nextKind? ≠ none := nextKind?_of_parseParams (by simp [Parsed.pair, ht₄])
    obtain ⟨openParen, hopen, ht₂⟩ := TokenStream.exists_of_take .openParen (by simp) h₃
    obtain ⟨name, hname, ht₁⟩ := TokenStream.exists_of_take .name (by simp) (t := (t.take .kwFn).rest) (by simp [ht₂])
    obtain ⟨word, hword, ht⟩ := TokenStream.exists_of_take .kwFn (by simp) (t := t) (by simp [ht₁])
    have hstart : t = .more word (.more name (.more openParen t₃)) := ht.trans (by rw [ht₁, ht₂])
    have hparams : (parseParams t₃).pair.2 = .more closeParen (.more arrow (.more ty (.more openBrace rest))) :=
      ht₄.trans (by rw [ht₅, ht₆, ← ht₇])
    exact .inl ⟨word, name, openParen, t₃, closeParen, arrow, ty, openBrace, rest, hword, hname, hopen, hclose, harrow, hty, hbrace,
      hstart, hparams⟩
  · have hbrace : (header t).brace = .error error := congrArg Prod.fst herror
    have hrest : (header t).rest = .broken error := congrArg Prod.snd herror
    obtain ⟨hbehind, hwhole⟩ := ofHeader_of_brace hbrace
    rw [pair_parse_eq_ofHeader]
    exact .inr ⟨error, hbehind.trans hrest, hrest, hwhole⟩

end

end Function

namespace CompilationUnit

section

variable {t : TokenStream} {first : Token} {rest : TokenStream}

/-- At `let` and `const` one more declaration is read. -/
theorem parseGlobals_cons {constant : Bool} (h : Grammar.declares? first.kind = some constant) :
    parseGlobals (.more first rest) =
      (.seq (Stmt.parseDecl (.more first rest)).pair.1 (parseGlobals (Stmt.parseDecl (.more first rest)).pair.2).1,
        (parseGlobals (Stmt.parseDecl (.more first rest)).pair.2).2) := by
  have hkind := Grammar.declares?_eq_some h
  rw [parseGlobals, dif_pos (by cases constant <;> simp [TokenStream.startsWith_eq, hkind])]
  rfl

/-- The declarations end before any other token. -/
theorem parseGlobals_nil (hlet : t.nextKind? ≠ some .kwLet) (hconst : t.nextKind? ≠ some .kwConst) :
    parseGlobals t = (.nil, t) := by
  rw [parseGlobals, dif_neg (by simp [TokenStream.startsWith_eq, hlet, hconst])]

/-- At `fn` one more function is read. -/
theorem parseFunctions_cons (h : first.kind = .kwFn) :
    parseFunctions (.more first rest) =
      ((Function.parse (.more first rest)).pair.1 :: (parseFunctions (Function.parse (.more first rest)).pair.2).1,
        (parseFunctions (Function.parse (.more first rest)).pair.2).2) := by
  rw [parseFunctions, dif_pos (by simp [TokenStream.startsWith_eq, h])]
  rfl

/-- The functions end before any other token. -/
theorem parseFunctions_nil (h : t.nextKind? ≠ some .kwFn) : parseFunctions t = ([], t) := by
  rw [parseFunctions, dif_neg (by simp [TokenStream.startsWith_eq, h])]

end

end CompilationUnit

/-! ## From a derivation to the tree -/

namespace Grammar

open TokenStream

/-- The tokens of a parameter are read as the parameter. -/
theorem Parameter.pair_parse {ts : List Token} {p : Param} (h : Parameter ts p) (rest : TokenStream) :
    (Param.parse (rest.prepend ts)).pair = (.ok p, rest) := by
  rw [Param.pair_parse]
  cases h with
  | plain hx hcolon hty =>
    simp only [prepend_cons, prepend_nil, startsWith_eq, nextKind?_more, hx]
    rw [if_neg (by simp), takeTyped_more hx hcolon hty]
    rfl
  | constant hword hx hcolon hty =>
    simp only [prepend_cons, prepend_nil, startsWith_eq, nextKind?_more, hword]
    rw [if_pos (by simp)]
    simp only [tail]
    rw [takeTyped_more hx hcolon hty]
    rfl

/-- The tokens of a list of parameters are read as the list, if no comma comes behind them. -/
theorem ParameterList.pair_parseParamList {ts : List Token} {ps : List Param} {rest : TokenStream} (h : ParameterList ts ps)
    (hrest : rest.nextKind? ≠ some .comma) : (Function.parseParamList (rest.prepend ts)).pair = (ps, rest) := by
  induction h with
  | one h => exact Function.pair_parseParamList_one (h.pair_parse rest) hrest
  | cons h hcomma _ ih =>
    rw [prepend_append, prepend_cons, Function.pair_parseParamList_cons (h.pair_parse _) hcomma, ih]

/-- A list of parameters does not start with a closing parenthesis. -/
theorem ParameterList.nextKind?_ne {ts : List Token} {ps : List Param} (h : ParameterList ts ps) (rest : TokenStream) :
    (rest.prepend ts).nextKind? ≠ some .closeParen := by
  have hparam : ∀ {us p} (_ : Parameter us p) (rest : TokenStream), (rest.prepend us).nextKind? ≠ some .closeParen := by
    intro us p hp rest
    cases hp with
    | plain hx => simp [hx]
    | constant hword => simp [hword]
  cases h with
  | one h => exact hparam h rest
  | cons h =>
    rw [prepend_append]
    exact hparam h _

/-- The tokens between the parentheses are read as the parameters in front of the closing one. -/
theorem Parameters.pair_parseParams {ts : List Token} {ps : List Param} {close : Token} {rest : TokenStream} (h : Parameters ts ps)
    (hclose : close.kind = .closeParen) :
    (Function.parseParams ((more close rest).prepend ts)).pair = (ps, more close rest) := by
  cases h with
  | none => exact Function.pair_parseParams_none (by simp [hclose])
  | some h =>
    rw [Function.pair_parseParams_some (h.nextKind?_ne _)]
    exact h.pair_parseParamList (by simp [hclose])

/-- The tokens of a function are read as its tree, whatever comes behind them. -/
theorem FunctionDefinition.pair_parse {ts : List Token} {f : Function} (h : FunctionDefinition ts f) (hs : Shaped ts)
    (rest : TokenStream) : (Function.parse (rest.prepend ts)).pair = (f, rest) := by
  obtain @⟨word, name, openParen, closeParen, arrow, ty, openBrace, us, vs, params, body, close, hword, hname, hopen, hparams,
    hclose, harrow, hty, hbrace, hbody⟩ := h
  have hvs : Shaped vs := hs.of_cons.2.of_cons.2.of_cons.2.of_append.2.of_cons.2.of_cons.2.of_cons.2.of_cons.2
  have hbody' : (Stmt.parseBody (rest.prepend vs)).pair = ((body, close), rest) := hbody.pair_parseBody hvs
  rw [prepend_cons, prepend_cons, prepend_cons, prepend_append, prepend_cons, prepend_cons, prepend_cons, prepend_cons,
    Function.pair_parse hword hname hopen (hparams.pair_parseParams hclose) hclose harrow hty hbrace, hbody']

/-- A declaration starts with one of the two words. -/
theorem Declaration.exists_declares {ts : List Token} {s : Stmt} (h : Declaration ts s) :
    ∃ word us constant, ts = word :: us ∧ declares? word.kind = some constant := by
  cases h with
  | plain hword => exact ⟨_, _, false, rfl, by simp [declares?, hword]⟩
  | init hword => exact ⟨_, _, _, rfl, hword⟩

/-- A function starts with `fn`. -/
theorem FunctionDefinition.exists_fn {ts : List Token} {f : Function} (h : FunctionDefinition ts f) :
    ∃ word us, ts = word :: us ∧ word.kind = .kwFn := by
  cases h with
  | defn hword => exact ⟨_, _, rfl, hword⟩

/-- The tokens of declarations are read as their tree, if no other declaration comes behind them. -/
theorem Declarations.parseGlobals_eq {ts : List Token} {s : Stmt} {rest : TokenStream} (h : Declarations ts s) (hs : Shaped ts)
    (hlet : rest.nextKind? ≠ some .kwLet) (hconst : rest.nextKind? ≠ some .kwConst) :
    CompilationUnit.parseGlobals (rest.prepend ts) = (s, rest) := by
  induction h with
  | nil => exact CompilationUnit.parseGlobals_nil hlet hconst
  | @cons us vs s ss h _ ih =>
    have hdecl := (h.pair_parseDecl hs.of_append.1 (rest.prepend vs)).1
    obtain ⟨word, us', constant, rfl, hword⟩ := h.exists_declares
    rw [prepend_append]
    rw [prepend_cons] at hdecl ⊢
    rw [CompilationUnit.parseGlobals_cons hword, hdecl, ih hs.of_append.2]

/-- The tokens of functions are read as their trees at the end of a text. -/
theorem Functions.parseFunctions_eq {ts : List Token} {fs : List Function} (h : Functions ts fs) (hs : Shaped ts)
    (pos : Position) : CompilationUnit.parseFunctions ((done pos).prepend ts) = (fs, done pos) := by
  induction h with
  | nil => exact CompilationUnit.parseFunctions_nil (by simp)
  | @cons us vs f fs h _ ih =>
    have hfun := h.pair_parse hs.of_append.1 ((done pos).prepend vs)
    obtain ⟨word, us', rfl, hword⟩ := h.exists_fn
    rw [prepend_append]
    rw [prepend_cons] at hfun ⊢
    rw [CompilationUnit.parseFunctions_cons hword, hfun, ih hs.of_append.2]

/-- Up to the end of a text functions start with `fn`, if there are any. -/
theorem Functions.nextKind? {ts : List Token} {fs : List Function} (h : Functions ts fs) (pos : Position) :
    ((done pos).prepend ts).nextKind? = some .endOfFile ∨ ((done pos).prepend ts).nextKind? = some .kwFn := by
  cases h with
  | nil => exact .inl rfl
  | cons h =>
    obtain ⟨word, us, rfl, hword⟩ := h.exists_fn
    exact .inr (by simp [hword])

/-- A whole program text is read to its end, as the grammar derives it. -/
theorem ProgramText.parse_eq {ts : List Token} {pos : Position} {u : CompilationUnit} (h : ProgramText ts pos u)
    (hs : Shaped ts) : CompilationUnit.parse ((done pos).prepend ts) = (u, done pos) := by
  obtain ⟨hglobals, hfunctions⟩ := h
  have hnext := hfunctions.nextKind? pos
  rw [prepend_append]
  simp only [CompilationUnit.parse]
  rw [hglobals.parseGlobals_eq hs.of_append.1 (by rcases hnext with h | h <;> simp [h])
    (by rcases hnext with h | h <;> simp [h])]
  simp only
  rw [hfunctions.parseFunctions_eq hs.of_append.2]
  rfl

/-! ## From the tree to a derivation -/

/-- The stream behind what was read is broken. -/
def Broken {α : Type} (r : α × TokenStream) : Prop := ∃ error, r.2 = .broken error

end Grammar

open Grammar TokenStream

/-- A parameter comes next and is read, or the stream breaks. -/
theorem Param.parse_cases (t : TokenStream) :
    (∃ ts p rest, Parameter ts p ∧ t = rest.prepend ts ∧ (Param.parse t).pair = (.ok p, rest)) ∨
      ∃ error error', (Param.parse t).pair = (.error error, .broken error') := by
  by_cases hconst : t.nextKind? = some .kwConst
  · cases t with
    | done | broken => simp at hconst
    | more word t =>
      have hword : word.kind = .kwConst := Option.some.inj hconst
      rcases takeTyped_cases t with ⟨x, colon, ty, rest, hx, hcolon, hty, rfl⟩ | ⟨error, error', herror⟩
      · have hparam : Parameter [word, x, colon, ty] ⟨true, x.ident, ty.ident⟩ := .constant hword hx hcolon hty
        exact .inl ⟨_, _, rest, hparam, rfl, hparam.pair_parse rest⟩
      · right
        rw [Param.pair_parse, if_pos (by simp [startsWith_eq, hword]), tail, herror]
        exact ⟨error, error', rfl⟩
  · rcases takeTyped_cases t with ⟨x, colon, ty, rest, hx, hcolon, hty, rfl⟩ | ⟨error, error', herror⟩
    · have hparam : Parameter [x, colon, ty] ⟨false, x.ident, ty.ident⟩ := .plain hx hcolon hty
      exact .inl ⟨_, _, rest, hparam, rfl, hparam.pair_parse rest⟩
    · right
      rw [Param.pair_parse, if_neg (by simp [startsWith_eq, hconst]), herror]
      exact ⟨error, error', rfl⟩

namespace Function

/-- A list of parameters is read as the grammar derives it, or the stream breaks. -/
theorem reads_parseParamList (t : TokenStream) :
    Reads ParameterList Anywhere t (parseParamList t).pair ∨ Broken (parseParamList t).pair := by
  rcases Param.parse_cases t with ⟨ts, p, rest, hp, ht, hparse⟩ | ⟨error, error', hparse⟩
  · by_cases hcomma : rest.nextKind? = some .comma
    · cases rest with
      | done | broken => simp at hcomma
      | more comma rest =>
        have hkind : comma.kind = .comma := Option.some.inj hcomma
        have hlen : rest.length < t.length := by
          have hle := (Param.parse t).length_le
          have hrest : (Param.parse t).rest = more comma rest := congrArg Prod.snd hparse
          rw [hrest, length_more] at hle
          omega
        rw [pair_parseParamList_cons hparse hkind]
        refine (reads_parseParamList rest).imp_left ?_
        rintro ⟨us, hus, hps, -⟩
        exact ⟨ts ++ comma :: us, by rw [prepend_append, prepend_cons, ← hus, ht], .cons hp hkind hps, trivial⟩
    · rw [pair_parseParamList_one hparse hcomma]
      exact .inl ⟨ts, ht, .one hp, trivial⟩
  · rw [pair_parseParamList_fault hparse]
    exact .inr ⟨error', rfl⟩
termination_by t.length

/-- The parameters are read as the grammar derives them, or the stream breaks. -/
theorem reads_parseParams (t : TokenStream) :
    Reads Parameters Anywhere t (parseParams t).pair ∨ Broken (parseParams t).pair := by
  by_cases hclose : t.nextKind? = some .closeParen
  · rw [pair_parseParams_none hclose]
    exact .inl ⟨[], rfl, .none, trivial⟩
  · rw [pair_parseParams_some hclose]
    exact (reads_parseParamList t).imp_left fun ⟨ts, ht, h, _⟩ => ⟨ts, ht, .some h, trivial⟩

/-- A function is read as the grammar derives it, or there is a fault in the tree. -/
theorem reads_parse (t : TokenStream) :
    Reads FunctionDefinition Anywhere t (parse t).pair ∨ Faulty Whole (parse t).pair := by
  rcases parse_cases t with ⟨word, name, openParen, t₃, closeParen, arrow, ty, openBrace, rest, hword, hname, hopen, hclose, harrow,
    hty, hbrace, rfl, hparams⟩ | ⟨error, herror, -, hwhole⟩
  · rw [pair_parse hword hname hopen (Prod.ext rfl hparams) hclose harrow hty hbrace]
    rcases reads_parseParams t₃ with ⟨ts, ht, hps, -⟩ | ⟨error, herror⟩
    · rcases Stmt.reads_parseBody rest with ⟨us, hus, hbody, -⟩ | ⟨hwhole, herror⟩
      · refine .inl ⟨word :: name :: openParen :: (ts ++ closeParen :: arrow :: ty :: openBrace :: us), ?_,
          .defn hword hname hopen hps hclose harrow hty hbrace hbody, trivial⟩
        simp only [prepend_cons, prepend_append]
        rw [← hus, ← hparams, ← ht]
      · exact .inr ⟨hwhole, herror⟩
    · rw [herror] at hparams
      exact nomatch hparams
  · exact .inr ⟨hwhole, error, herror⟩

end Function

namespace CompilationUnit

/-- The declarations are read as the grammar derives them, or the stream breaks. -/
theorem reads_parseGlobals (t : TokenStream) : Reads Declarations Anywhere t (parseGlobals t) ∨ Broken (parseGlobals t) := by
  cases hnext : t.nextKind?.bind declares? with
  | none =>
    rw [parseGlobals_nil (fun h => by simp [h, declares?] at hnext) (fun h => by simp [h, declares?] at hnext)]
    exact .inl ⟨[], rfl, .nil, trivial⟩
  | some constant =>
    cases ht : t with
    | done | broken => simp [ht, declares?] at hnext
    | more first rest =>
      have hfirst : declares? first.kind = some constant := by simpa [ht] using hnext
      have hle := (Stmt.parseDecl (more first rest)).length_le
      have hlen : t.length = rest.length + 1 := by rw [ht, length_more]
      rw [parseGlobals_cons hfirst]
      have hdecl := Stmt.reads_parseDeclRest hfirst rest
      rw [← Stmt.pair_parseDecl hfirst] at hdecl
      rcases hdecl with ⟨ts, hts, h, -⟩ | ⟨-, error, herror⟩
      · refine (reads_parseGlobals (Stmt.parseDecl (more first rest)).pair.2).imp_left ?_
        rintro ⟨us, hus, hs, -⟩
        exact ⟨ts ++ us, by rw [prepend_append, ← hus, ← hts], .cons h hs, trivial⟩
      · right
        rw [herror, parseGlobals_nil (by simp) (by simp)]
        exact ⟨error, rfl⟩
termination_by t.length
decreasing_by
  simp only [Parsed.pair, length_more] at hle ⊢
  omega

/-- The functions are read as the grammar derives them, or the stream breaks. -/
theorem reads_parseFunctions (t : TokenStream) :
    Reads Functions Anywhere t (parseFunctions t) ∨ Broken (parseFunctions t) := by
  by_cases hnext : t.nextKind? = some .kwFn
  · cases ht : t with
    | done | broken => simp [ht] at hnext
    | more first rest =>
      have hfirst : first.kind = .kwFn := by simpa [ht] using hnext
      have hle := (Function.parse (more first rest)).length_le
      have hlen : t.length = rest.length + 1 := by rw [ht, length_more]
      rw [parseFunctions_cons hfirst]
      rcases Function.reads_parse (more first rest) with ⟨ts, hts, h, -⟩ | ⟨-, error, herror⟩
      · refine (reads_parseFunctions (Function.parse (more first rest)).pair.2).imp_left ?_
        rintro ⟨us, hus, hs, -⟩
        exact ⟨ts ++ us, by rw [prepend_append, ← hus, ← hts], .cons h hs, trivial⟩
      · right
        rw [herror, parseFunctions_nil (by simp)]
        exact ⟨error, rfl⟩
  · rw [parseFunctions_nil hnext]
    exact .inl ⟨[], rfl, .nil, trivial⟩
termination_by t.length
decreasing_by
  simp only [Parsed.pair, length_more] at hle ⊢
  omega

/-- The end of a text is reached only where it is. -/
theorem eq_done_of_parseEnding {functions : List Function} {t : TokenStream} {pos : Position}
    (h : parseEnding functions t = .ok pos) : t = done pos := by
  cases t with
  | done pos' =>
    obtain rfl : pos' = pos := Except.ok.inj h
    rfl
  | broken | more => exact nomatch h

/-- A unit whose end was reached is derived as it was read. -/
theorem programText_of_parse {t : TokenStream} {pos : Position} (h : (parse t).1.ending = .ok pos) :
    ∃ ts, t = (done pos).prepend ts ∧ ProgramText ts pos (parse t).1 := by
  have hend : (parseFunctions (parseGlobals t).2).2 = done pos := eq_done_of_parseEnding h
  rcases reads_parseFunctions (parseGlobals t).2 with ⟨us, hus, hfunctions, -⟩ | ⟨error, herror⟩
  · rcases reads_parseGlobals t with ⟨ts, hts, hglobals, -⟩ | ⟨error, herror⟩
    · refine ⟨ts ++ us, by rw [prepend_append, ← hend, ← hus, ← hts], ?_⟩
      have hunit : (parse t).1 = ⟨(parseGlobals t).1, (parseFunctions (parseGlobals t).2).1, .ok pos⟩ := by
        rw [← h]
        rfl
      rw [hunit]
      exact .mk hglobals hfunctions
    · rw [herror, parseFunctions_nil (by simp)] at hend
      exact nomatch hend
  · rw [herror] at hend
    exact nomatch hend

end CompilationUnit

end C0Stack
