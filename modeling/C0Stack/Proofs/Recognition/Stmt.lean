import C0Stack.Proofs.Grammar.Stmt
import C0Stack.Proofs.Recognition.Expr

/-!
# How the readers of statements end

On a stream that can be read, the reader of statements takes statements of the grammar or stops at the first token that cannot come
next, as `Grammar.Outcome` says it. A statement is told by its first token, so only the kind of that token decides which reader goes
on.
-/

namespace C0Stack

namespace Grammar

/-- What may stand between the type and the semicolon of a declaration. Only a variable may do without a value. -/
inductive Initializer (constant : Bool) : List Token → Prop
  | none : constant = false → Initializer constant []
  | some {sign : Token} {ts : List Token} : sign.kind = .assign → Derived Expression ts → Initializer constant (sign :: ts)

/-- A number is an initial value. -/
theorem initializer_number {constant : Bool} {sign : Token} (h : sign.kind = .assign) :
    Initializer constant [sign, .sample .integer] := .some h derived_expression_number

/-- A declaration is its header, a value and a semicolon. -/
theorem Initializer.derived {constant : Bool} {word x colon ty semicolon : Token} {ts : List Token}
    (h : Initializer constant ts) (hword : declares? word.kind = .some constant) (hx : x.kind = .name) (hcolon : colon.kind = .colon)
    (hty : ty.kind = .name) (hsemi : semicolon.kind = .semicolon) :
    Derived Declaration (word :: x :: colon :: ty :: (ts ++ [semicolon])) := by
  cases h with
  | none hconstant =>
    subst hconstant
    exact ⟨_, .plain (declares?_eq_some hword) hx hcolon hty hsemi⟩
  | some hsign he =>
    obtain ⟨e, he⟩ := he
    exact ⟨_, .init hword hx hcolon hty hsign he hsemi⟩

/-- Two braces are a block. -/
theorem derived_block_empty {brace : Token} (h : brace.kind = .openBrace) : Derived Block [brace, .sample .closeBrace] :=
  ⟨_, .braces h (.close .nil rfl)⟩

/-- A condition and an empty block make a conditional. -/
theorem derived_conditional_empty {word : Token} (hword : word.kind = .kwIf) {ts : List Token} (hts : Derived Expression ts) :
    Derived Conditional (word :: (ts ++ [.sample .openBrace, .sample .closeBrace])) := by
  obtain ⟨e, he⟩ := hts
  obtain ⟨body, hbody⟩ : Derived Block [.sample .openBrace, .sample .closeBrace] := derived_block_empty rfl
  exact ⟨_, .ifThen hword he hbody⟩

end Grammar

namespace Stmt

open Grammar TokenStream

/-! ## What each reader leaves -/

section

variable {first : Token} {rest t : TokenStream} {pos : Position} {constant : Bool} {s : Stmt}

/-- The reader of the semicolon takes it, whatever the statement was. -/
theorem behind_parseSemicolon : behind (parseSemicolon s) t = behind (take .semicolon) t := by
  obtain ⟨semicolon, rest, rfl, hkind, -⟩ | ⟨error, herror⟩ := take_cases .semicolon (by simp) t
  · rw [behind_take hkind]
    exact behind_eq (pair_parseSemicolon hkind)
  · exact (behind_eq (pair_parseSemicolon_fault herror)).trans (behind_eq herror).symm

/-- A constant has an assignment sign and an expression behind its type. -/
theorem behind_parseInit_constant : behind (parseInit true) t = behind Expr.parse (behind (take .assign) t) := by
  obtain ⟨sign, rest, rfl, hkind, -⟩ | ⟨error, herror⟩ := take_cases .assign (by simp) t
  · rw [behind_take hkind]
    exact behind_eq (pair_parseInit_some hkind)
  · have hbehind : behind (take .assign) t = broken error := behind_eq herror
    rw [hbehind, Expr.behind_parse_broken]
    exact behind_eq (pair_parseInit_fault herror)

/-- Behind an assignment sign the expression is taken. -/
theorem behind_parseInit_some (h : first.kind = .assign) :
    behind (parseInit constant) (more first rest) = behind Expr.parse rest := behind_eq (pair_parseInit_some h)

/-- A variable without an initial value has nothing there. -/
theorem behind_parseInit_none (h : t.nextKind? ≠ some .assign) : behind (parseInit false) t = t :=
  behind_eq (pair_parseInit_none h)

/-- No initial value is read from a broken stream. -/
theorem behind_parseInit_broken (error : Diagnostic) : behind (parseInit constant) (broken error) = broken error := by
  cases constant with
  | true => rw [behind_parseInit_constant, behind_take_broken, Expr.behind_parse_broken]
  | false => exact behind_parseInit_none (by simp)

/-- What is left behind a name, a colon and the name of a type. -/
theorem takeTyped_snd : t.takeTyped.2 = behind (take .name) (behind (take .colon) (behind (take .name) t)) := by
  unfold takeTyped behind
  dsimp only [Parsed.pair]
  split <;> rfl

/-- What is left behind a declaration, given what is left behind its first word. -/
def behindDecl (constant : Bool) (t : TokenStream) : TokenStream :=
  behind (take .semicolon) (behind (parseInit constant) (behind (take .name) (behind (take .colon) (behind (take .name) t))))

/-- What a declaration leaves depends on neither its place nor what was read. -/
theorem behind_parseDeclRest : behind (parseDeclRest pos constant) t = behindDecl constant t := by
  unfold behindDecl
  rw [← takeTyped_snd]
  obtain ⟨x, colon, ty, rest, hx, hcolon, hty, rfl⟩ | ⟨error, error', herror⟩ := takeTyped_cases t
  · rw [takeTyped_more hx hcolon hty]
    exact (behind_congr (pair_parseDeclRest_more hx hcolon hty)).trans behind_parseSemicolon
  · rw [herror, behind_parseInit_broken, behind_take_broken]
    exact behind_eq (pair_parseDeclRest.trans (by rw [herror]))

/-- What is left behind a return, given what is left behind its first word. -/
def behindReturn (t : TokenStream) : TokenStream :=
  if t.nextKind? = some .semicolon then t.tail else behind (take .semicolon) (behind Expr.parse t)

/-- What a return leaves does not depend on its place. -/
theorem behind_parseReturnRest : behind (parseReturnRest pos) t = behindReturn t := by
  unfold behindReturn
  by_cases hsemi : t.nextKind? = some .semicolon
  · rw [if_pos hsemi]
    cases t with
    | done | broken => simp at hsemi
    | more first rest => exact behind_eq (pair_parseReturnRest_ret (Option.some.inj hsemi))
  · rw [if_neg hsemi]
    exact (behind_congr (pair_parseReturnRest_value hsemi)).trans behind_parseSemicolon

/-- No statements are read from a broken stream. -/
theorem behind_parseStmts_broken (error : Diagnostic) : behind parseStmts (broken error) = broken error :=
  behind_eq (pair_parseStmts_nil (by simp))

/-- Before anything but a closing brace one more statement is taken. -/
theorem behind_parseStmts_cons (h : first.kind ≠ .closeBrace) :
    behind parseStmts (more first rest) = behind parseStmts (behind parse (more first rest)) :=
  behind_eq (pair_parseStmts_cons h)

/-- The body of a block is its statements and the closing brace. -/
theorem behind_parseBody : behind parseBody t = behind (take .closeBrace) (behind parseStmts t) := by
  obtain ⟨close, rest, -, -, htake⟩ | ⟨error, herror⟩ := take_cases .closeBrace (by simp) (parseStmts t).pair.2
  · exact (behind_eq (pair_parseBody htake)).trans (behind_eq htake).symm
  · exact (behind_eq (pair_parseBody_fault herror)).trans (behind_eq herror).symm

/-- No body is read from a broken stream. -/
theorem behind_parseBody_broken (error : Diagnostic) : behind parseBody (broken error) = broken error := by
  rw [behind_parseBody, behind_parseStmts_broken, behind_take_broken]

/-- A block is the opening brace and the body. -/
theorem behind_parseBlock : behind parseBlock t = behind parseBody (behind (take .openBrace) t) := by
  obtain ⟨brace, rest, rfl, hkind, -⟩ | ⟨error, herror⟩ := take_cases .openBrace (by simp) t
  · rw [behind_take hkind]
    exact behind_eq (pair_parseBlock hkind)
  · have hbehind : behind (take .openBrace) t = broken error := behind_eq herror
    rw [hbehind, behind_parseBody_broken]
    exact behind_eq (pair_parseBlock_fault herror)

/-- No block is read from a broken stream. -/
theorem behind_parseBlock_broken (error : Diagnostic) : behind parseBlock (broken error) = broken error := by
  rw [behind_parseBlock, behind_take_broken, behind_parseBody_broken]

/-- What is left behind a conditional, given what is left behind its first block. -/
def behindThen (t : TokenStream) : TokenStream := if t.nextKind? = some .kwElse then behind parseElse t.tail else t

/-- No alternative is read from a broken stream. -/
theorem behindThen_broken (error : Diagnostic) : behindThen (broken error) = broken error := rfl

/-- What is left behind a conditional, given what is left behind its first word. -/
def behindIf (t : TokenStream) : TokenStream := behindThen (behind parseBlock (behind Expr.parse t))

/-- What a conditional leaves does not depend on its place. -/
theorem behind_parseIfRest : behind (parseIfRest pos) t = behindIf t := by
  have hblock : (parseBlock (Expr.parse t).pair.2).pair = (_, behind parseBlock (behind Expr.parse t)) := rfl
  unfold behindIf behindThen
  cases hrest : behind parseBlock (behind Expr.parse t) with
  | broken error =>
    rw [hrest] at hblock
    exact behind_eq (pair_parseIfRest_fault rfl hblock)
  | done pos' =>
    rw [hrest] at hblock
    exact behind_eq (pair_parseIfRest_then rfl hblock (nextKind?_done pos') (by simp))
  | more first rest =>
    rw [hrest] at hblock
    by_cases helse : first.kind = .kwElse
    · rw [if_pos (by rw [nextKind?_more, helse])]
      exact behind_eq (pair_parseIfRest_else rfl hblock helse)
    · rw [if_neg (by simpa using helse)]
      exact behind_eq (pair_parseIfRest_then rfl hblock (nextKind?_more first rest) helse)

/-- Behind `else` a conditional is taken up to its end. -/
theorem behind_parseElse_if (h : first.kind = .kwIf) : behind parseElse (more first rest) = behindIf rest :=
  (behind_congr (pair_parseElse_if h)).trans behind_parseIfRest

/-- Behind `else` a block is taken up to its closing brace. -/
theorem behind_parseElse_brace (h : first.kind = .openBrace) : behind parseElse (more first rest) = behind parseBody rest :=
  behind_eq (pair_parseElse_brace h)

/-- Behind `else` nothing else can come. -/
theorem behind_parseElse_refuse (hif : t.nextKind? ≠ some .kwIf) (hbrace : t.nextKind? ≠ some .openBrace) :
    behind parseElse t = broken (t.unexpected [.openBrace, .kwIf]) := by
  unfold behind
  cases t with
  | done | broken =>
    rw [parseElse]
    simp
  | more first rest =>
    rw [parseElse]
    split
    case h_3 => rfl
    all_goals simp_all

/-- A declaration is taken behind its first word. -/
theorem behind_parse_decl (h : declares? first.kind = some constant) : behind parse (more first rest) = behindDecl constant rest :=
  (behind_congr (pair_parse_decl h)).trans behind_parseDeclRest

/-- A conditional is taken behind its first word. -/
theorem behind_parse_if (h : first.kind = .kwIf) : behind parse (more first rest) = behindIf rest :=
  (behind_congr (pair_parse_if h)).trans behind_parseIfRest

/-- A loop is its condition and its body. -/
theorem behind_parse_while (h : first.kind = .kwWhile) :
    behind parse (more first rest) = behind parseBlock (behind Expr.parse rest) := behind_eq (pair_parse_while h)

/-- A return is taken behind its first word. -/
theorem behind_parse_return (h : first.kind = .kwReturn) : behind parse (more first rest) = behindReturn rest :=
  (behind_congr (pair_parse_return h)).trans behind_parseReturnRest

/-- A semicolon is taken behind `break`. -/
theorem behind_parse_break (h : first.kind = .kwBreak) : behind parse (more first rest) = behind (take .semicolon) rest :=
  (behind_congr (pair_parse_break h)).trans behind_parseSemicolon

/-- A semicolon is taken behind `continue`. -/
theorem behind_parse_continue (h : first.kind = .kwContinue) : behind parse (more first rest) = behind (take .semicolon) rest :=
  (behind_congr (pair_parse_continue h)).trans behind_parseSemicolon

/-- A block is taken behind its brace. -/
theorem behind_parse_brace (h : first.kind = .openBrace) : behind parse (more first rest) = behind parseBody rest :=
  behind_eq (pair_parse_brace h)

/-- An empty statement is taken alone. -/
theorem behind_parse_semicolon (h : first.kind = .semicolon) : behind parse (more first rest) = rest :=
  behind_eq (pair_parse_semicolon h)

/-- Any other statement is an expression and a semicolon. -/
theorem behind_parse_expr (h : ∀ k ∈ leading, t.nextKind? ≠ some k) :
    behind parse t = behind (take .semicolon) (behind Expr.parse t) :=
  (behind_congr (pair_parse_expr h)).trans behind_parseSemicolon

end

/-! ## How each reader ends -/

/-- An expression and a semicolon behind it. -/
theorem outcome_expr_semicolon {L : List Token → Prop} {t : TokenStream} (ht : t.Readable)
    (hL : ∀ ts, Derived Expression ts → ∀ semicolon : Token, semicolon.kind = .semicolon → L (ts ++ [semicolon])) :
    Outcome L (fun t => behind (take .semicolon) (behind Expr.parse t)) t := by
  refine (Expr.outcome_parse t ht).andThen ht (fun ts hts => .of_kinds [.semicolon] (by simp) (hL ts hts _ rfl))
    (behind_take_broken _) fun ts rest _ hreadable hts => ?_
  exact .take hreadable (by simp) fun semicolon _ hsemi => hL ts hts semicolon hsemi

/-- An initial value is read, or left out, or the reader stops at the first token that cannot come next. -/
theorem outcome_parseInit (constant : Bool) {t : TokenStream} (ht : t.Readable) :
    Outcome (Initializer constant) (behind (parseInit constant)) t := by
  have hsome : ∀ sign : Token, sign.kind = .assign → ∀ rest : TokenStream, rest.Readable →
      Outcome (fun us => Initializer constant (sign :: us)) (behind Expr.parse) rest := fun sign hsign rest hrest =>
    (Expr.outcome_parse rest hrest).mono fun us hus => .some hsign hus
  cases constant with
  | true =>
    refine Outcome.congr (.token ht (by simp) ?_ Expr.behind_parse_broken fun sign rest _ hsign hrest => hsome sign hsign rest hrest)
      ht fun t' _ => behind_parseInit_constant
    intro sign _ hsign
    exact .of_kinds [.integer] (by simp) (initializer_number hsign)
  | false =>
    by_cases hassign : t.nextKind? = some .assign
    · obtain ⟨sign, rest, rfl, hsign⟩ := ht.exists_more hassign (by simp)
      exact (hsome sign hsign rest ht.2).cons ht fun sign' rest' _ hkind _ => behind_parseInit_some (hkind.trans hsign)
    · exact .pass (.none rfl) fun t' ht' => behind_parseInit_none (by rwa [ht'.nextKind?])

/-- A declaration behind its first word. -/
theorem outcome_decl {word : Token} {constant : Bool} (hword : declares? word.kind = some constant) {t : TokenStream}
    (ht : t.Readable) : Outcome (fun us => Derived Declaration (word :: us)) (behindDecl constant) t := by
  have hvalue : ∀ x : Token, x.kind = .name → ∀ colon : Token, colon.kind = .colon → ∀ ty : Token, ty.kind = .name →
      Derived Declaration (word :: x :: colon :: ty :: ([.sample .assign, .sample .integer] ++ [.sample .semicolon])) :=
    fun x hx colon hcolon ty hty => (initializer_number rfl).derived hword hx hcolon hty rfl
  refine .token (r := fun t => behind (take .semicolon) (behind (parseInit constant) (behind (take .name) (behind (take .colon) t))))
    ht (by simp) (fun x _ hx => ?_) (fun error => ?_) fun x t₁ _ hx ht₁ => ?_
  · exact .of_kinds [.colon, .name, .assign, .integer, .semicolon] (by simp) (hvalue x hx _ rfl _ rfl)
  · rw [behind_take_broken, behind_take_broken, behind_parseInit_broken, behind_take_broken]
  refine .token (r := fun t => behind (take .semicolon) (behind (parseInit constant) (behind (take .name) t))) ht₁ (by simp)
    (fun colon _ hcolon => ?_) (fun error => ?_) fun colon t₂ _ hcolon ht₂ => ?_
  · exact .of_kinds [.name, .assign, .integer, .semicolon] (by simp) (hvalue x hx colon hcolon _ rfl)
  · rw [behind_take_broken, behind_parseInit_broken, behind_take_broken]
  refine .token (r := fun t => behind (take .semicolon) (behind (parseInit constant) t)) ht₂ (by simp) (fun ty _ hty => ?_)
    (fun error => ?_) fun ty t₃ _ hty ht₃ => ?_
  · exact .of_kinds [.assign, .integer, .semicolon] (by simp) (hvalue x hx colon hcolon ty hty)
  · rw [behind_parseInit_broken, behind_take_broken]
  have hderived : ∀ us, Initializer constant us → ∀ semicolon : Token, semicolon.kind = .semicolon →
      Derived Declaration (word :: x :: colon :: ty :: (us ++ [semicolon])) :=
    fun us hus semicolon hsemi => hus.derived hword hx hcolon hty hsemi
  refine (outcome_parseInit constant ht₃).andThen ht₃ (fun us hus => .of_kinds [.semicolon] (by simp) (hderived us hus _ rfl))
    (behind_take_broken _) fun us rest _ hreadable hus => ?_
  exact .take hreadable (by simp) fun semicolon _ hsemi => hderived us hus semicolon hsemi

/-- A return behind its first word. -/
theorem outcome_return {word : Token} (hword : word.kind = .kwReturn) {t : TokenStream} (ht : t.Readable) :
    Outcome (fun us => Derived Statement (word :: us)) behindReturn t := by
  by_cases hsemi : t.nextKind? = some .semicolon
  · obtain ⟨semicolon, rest, rfl, hkind⟩ := ht.exists_more hsemi (by simp)
    have hret : Derived Statement [word, semicolon] := ⟨_, .ret hword hkind⟩
    refine (Outcome.pass (r := id) hret fun _ _ => rfl).cons ht fun semicolon' rest' _ hkind' _ => ?_
    exact if_pos (by rw [nextKind?_more, hkind', hkind])
  · refine Outcome.congr (outcome_expr_semicolon ht fun ts hts semicolon hkind => ?_) ht fun t' ht' => ?_
    · obtain ⟨e, he⟩ := hts
      exact ⟨_, .retValue hword he hkind⟩
    · exact if_neg (by rwa [ht'.nextKind?])

/-- A word and a semicolon behind it. -/
theorem outcome_word {word : Token} {t : TokenStream} (ht : (more word t).Readable)
    (hparse : ∀ word' t', word'.kind = word.kind → behind parse (more word' t') = behind (take .semicolon) t')
    (hL : ∀ semicolon : Token, semicolon.kind = .semicolon → Derived Statement [word, semicolon]) :
    Outcome (Derived Statement) (behind parse) (more word t) := by
  have h : Outcome (fun us => Derived Statement (word :: us)) (behind (take .semicolon)) t :=
    .take ht.2 (by simp) fun semicolon _ hsemi => hL semicolon hsemi
  exact h.cons ht fun word' t' _ hkind _ => hparse word' t' hkind

mutual

/-- A statement is read, or the reader stops at the first token that cannot come next. -/
theorem outcome_parse (t : TokenStream) (ht : t.Readable) : Outcome (Derived Statement) (behind parse) t := by
  by_cases hlead : ∃ k ∈ leading, t.nextKind? = some k
  · obtain ⟨k, hmem, hk⟩ := hlead
    obtain ⟨first, rest, rfl, rfl⟩ := ht.exists_more hk (by rintro rfl; simp [leading] at hmem)
    exact outcome_parse_leading hmem rest ht
  · refine Outcome.congr (outcome_expr_semicolon ht fun ts hts semicolon hsemi => ?_) ht fun t' ht' => ?_
    · obtain ⟨e, he⟩ := hts
      exact ⟨_, .expr he hsemi⟩
    · refine behind_parse_expr fun k hk hnext => hlead ⟨k, hk, ?_⟩
      rw [← ht'.nextKind?, hnext]
termination_by 8 * t.length + 1
decreasing_by
  subst_vars
  simp only [length_more]
  omega

/-- The statements that their first token tells apart. -/
theorem outcome_parse_leading {first : Token} (hmem : first.kind ∈ leading) (rest : TokenStream) (ht : (more first rest).Readable) :
    Outcome (Derived Statement) (behind parse) (more first rest) := by
  have hdecl : ∀ constant, declares? first.kind = some constant → Outcome (Derived Statement) (behind parse) (more first rest) := by
    intro constant hword
    refine ((outcome_decl hword ht.2).mono ?_).cons ht fun first' rest' _ hkind _ => behind_parse_decl (hkind ▸ hword)
    rintro us ⟨s, hs⟩
    exact ⟨s, .decl hs⟩
  cases hfirst : first.kind with
  | kwLet => exact hdecl false (by rw [hfirst]; rfl)
  | kwConst => exact hdecl true (by rw [hfirst]; rfl)
  | kwIf =>
    refine ((outcome_if hfirst rest ht.2).mono ?_).cons ht fun first' rest' _ hkind _ => behind_parse_if (hkind.trans hfirst)
    rintro us ⟨s, hs⟩
    exact ⟨s, .conditional hs⟩
  | kwWhile =>
    have hloop : ∀ ts, Derived Expression ts → ∀ us, Derived Block us → Derived Statement (first :: (ts ++ us)) := by
      rintro ts ⟨e, he⟩ us ⟨body, hbody⟩
      exact ⟨_, .loop hfirst he hbody⟩
    have h : Outcome (fun us => Derived Statement (first :: us)) (fun t => behind parseBlock (behind Expr.parse t)) rest := by
      refine (Expr.outcome_parse rest ht.2).andThen ht.2 (fun ts hts => ?_) behind_parseBlock_broken
        fun ts rest' hrest hreadable hts => ?_
      · exact .of_kinds [.openBrace, .closeBrace] (by simp) (hloop ts hts _ (derived_block_empty rfl))
      · have hle : rest'.length ≤ rest.length - 1 := hrest ▸ (Expr.parse rest).length_le
        exact (outcome_parseBlock rest' hreadable).mono fun us hus => hloop ts hts us hus
    exact h.cons ht fun first' rest' _ hkind _ => behind_parse_while (hkind.trans hfirst)
  | kwReturn =>
    exact (outcome_return hfirst ht.2).cons ht fun first' rest' _ hkind _ => behind_parse_return (hkind.trans hfirst)
  | kwBreak =>
    exact outcome_word ht (fun word' t' hkind => behind_parse_break (hkind.trans hfirst)) fun semicolon hsemi =>
      ⟨_, .leave hfirst hsemi⟩
  | kwContinue =>
    exact outcome_word ht (fun word' t' hkind => behind_parse_continue (hkind.trans hfirst)) fun semicolon hsemi =>
      ⟨_, .again hfirst hsemi⟩
  | openBrace =>
    refine ((outcome_parseBody rest ht.2).mono ?_).cons ht fun first' rest' _ hkind _ => behind_parse_brace (hkind.trans hfirst)
    rintro us ⟨⟨body, close⟩, hbody⟩
    exact ⟨_, .block (.braces hfirst hbody)⟩
  | semicolon =>
    have hempty : Derived Statement [first] := ⟨_, .empty hfirst⟩
    refine (Outcome.pass (r := id) hempty fun _ _ => rfl).cons ht fun first' rest' _ hkind _ => ?_
    exact behind_parse_semicolon (hkind.trans hfirst)
  | _ => simp [leading, hfirst] at hmem
termination_by 8 * rest.length + 7

/-- A conditional behind its first word. -/
theorem outcome_if {word : Token} (hword : word.kind = .kwIf) (t : TokenStream) (ht : t.Readable) :
    Outcome (fun us => Derived Conditional (word :: us)) behindIf t := by
  refine (Expr.outcome_parse t ht).andThen (q := fun t => behindThen (behind parseBlock t)) ht
    (fun ts hts => .of_kinds [.openBrace, .closeBrace] (by simp) (derived_conditional_empty hword hts)) (fun error => ?_) ?_
  · rw [behind_parseBlock_broken, behindThen_broken]
  intro ts t₁ ht₁ hreadable₁ hts
  have hle₁ : t₁.length ≤ t.length - 1 := ht₁ ▸ (Expr.parse t).length_le
  have hthen : ∀ us, Derived Block us → Derived Conditional (word :: (ts ++ us)) := by
    rintro us ⟨body, hbody⟩
    exact hts.elim fun _ he => ⟨_, .ifThen hword he hbody⟩
  refine (outcome_parseBlock t₁ hreadable₁).andThen hreadable₁ (fun us hus => .of_mem (hthen us hus)) behindThen_broken ?_
  intro us t₂ ht₂ hreadable₂ hus
  have hle₂ : t₂.length ≤ t₁.length - 1 := ht₂ ▸ (parseBlock t₁).length_le
  by_cases helse : t₂.nextKind? = some .kwElse
  · obtain ⟨elseWord, rest, rfl, hkind⟩ := hreadable₂.exists_more helse (by simp)
    have hlt : rest.length < t.length := by
      simp only [length_more] at hle₂
      omega
    refine ((outcome_parseElse rest hreadable₂.2).mono ?_).cons hreadable₂ fun word' rest' _ hkind' _ => ?_
    · rintro vs ⟨other, hother⟩
      obtain ⟨e, he⟩ := hts
      obtain ⟨body, hbody⟩ := hus
      exact ⟨_, .ifElse hword he hbody hkind hother⟩
    · exact if_pos (by rw [nextKind?_more, hkind', hkind])
  · refine .pass ?_ fun t' ht' => if_neg (by rwa [ht'.nextKind?])
    rw [List.append_nil]
    exact hthen us hus
termination_by 8 * t.length + 5

/-- What stands behind `else` is read, or the reader stops at the first token that cannot come next. -/
theorem outcome_parseElse (t : TokenStream) (ht : t.Readable) : Outcome (Derived Alternative) (behind parseElse) t := by
  by_cases hif : t.nextKind? = some .kwIf
  · obtain ⟨word, rest, rfl, hword⟩ := ht.exists_more hif (by simp)
    refine ((outcome_if hword rest ht.2).mono ?_).cons ht fun word' rest' _ hkind _ => behind_parseElse_if (hkind.trans hword)
    rintro us ⟨s, hs⟩
    exact ⟨s, .conditional hs⟩
  by_cases hbrace : t.nextKind? = some .openBrace
  · obtain ⟨brace, rest, rfl, hkind⟩ := ht.exists_more hbrace (by simp)
    refine ((outcome_parseBody rest ht.2).mono ?_).cons ht fun brace' rest' _ hkind' _ => behind_parseElse_brace (hkind'.trans hkind)
    rintro us ⟨⟨body, close⟩, hbody⟩
    exact ⟨_, .block (.braces hkind hbody)⟩
  · refine .refuse [.openBrace, .kwIf] ⟨by simp, by simp⟩ (fun t' ht' => ?_) fun next _ hk => ?_
    · exact behind_parseElse_refuse (by rwa [ht'.nextKind?]) (by rwa [ht'.nextKind?])
    · simp only [List.mem_cons, List.not_mem_nil, or_false] at hk
      rcases hk with hk | hk
      · obtain ⟨s, hs⟩ := derived_block_empty hk
        exact .of_kinds [.closeBrace] (by simp) ⟨s, .block hs⟩
      · obtain ⟨s, hs⟩ := derived_conditional_empty hk derived_expression_number
        exact .of_kinds [.integer, .openBrace, .closeBrace] (by simp) ⟨s, .conditional hs⟩
termination_by 8 * t.length
decreasing_by
  all_goals subst_vars
  all_goals simp only [length_more]
  all_goals omega

/-- A block is read, or the reader stops at the first token that cannot come next. -/
theorem outcome_parseBlock (t : TokenStream) (ht : t.Readable) : Outcome (Derived Block) (behind parseBlock) t := by
  refine Outcome.congr (.token ht (by simp) (fun brace _ hbrace => ?_) behind_parseBody_broken
    fun brace rest hrest hbrace hreadable => ?_)
    ht fun t' _ => behind_parseBlock
  · exact .of_kinds [.closeBrace] (by simp) (derived_block_empty hbrace)
  · have hlen : t.length = rest.length + 1 := by rw [hrest, length_more]
    refine (outcome_parseBody rest hreadable).mono ?_
    rintro us ⟨⟨body, close⟩, hbody⟩
    exact ⟨_, .braces hbrace hbody⟩
termination_by 8 * t.length + 4

/-- The statements of a block and the closing brace. -/
theorem outcome_parseBody (t : TokenStream) (ht : t.Readable) : Outcome (Derived Body) (behind parseBody) t := by
  have hclosed : ∀ ts, Derived Statements ts → ∀ close : Token, close.kind = .closeBrace → Derived Body (ts ++ [close]) := by
    rintro ts ⟨body, hbody⟩ close hclose
    exact ⟨_, .close hbody hclose⟩
  have h : Outcome (Derived Body) (fun t => behind (take .closeBrace) (behind parseStmts t)) t := by
    refine (outcome_parseStmts t ht).andThen ht (fun ts hts => .of_kinds [.closeBrace] (by simp) (hclosed ts hts _ rfl))
      (behind_take_broken _) fun ts rest _ hreadable hts => ?_
    exact .take hreadable (by simp) fun close _ hclose => hclosed ts hts close hclose
  exact h.congr ht fun t' _ => behind_parseBody
termination_by 8 * t.length + 3

/-- Statements are read up to a closing brace or the end of the text. -/
theorem outcome_parseStmts (t : TokenStream) (ht : t.Readable) : Outcome (Derived Statements) (behind parseStmts) t := by
  have hnil : Derived Statements [] := ⟨_, .nil⟩
  cases t with
  | broken error => exact ht.elim
  | done pos =>
    refine .pass hnil fun t' ht' => behind_eq (pair_parseStmts_nil ?_)
    obtain ⟨pos', rfl⟩ := ht'.exists_done
    simp
  | more first rest =>
    by_cases hclose : first.kind = .closeBrace
    · refine .pass hnil fun t' ht' => behind_eq (pair_parseStmts_nil ?_)
      rintro first' rest' rfl
      exact (Option.some.inj ht'.nextKind?).trans hclose
    · have h : Outcome (Derived Statements) (fun t => behind parseStmts (behind parse t)) (more first rest) := by
        refine (outcome_parse (more first rest) ht).andThen ht ?_ behind_parseStmts_broken ?_
        · rintro ts ⟨s, hs⟩
          exact .of_mem ⟨_, by simpa using Statements.cons hs .nil⟩
        · rintro ts rest' hrest hreadable ⟨s, hs⟩
          have hle : rest'.length ≤ (more first rest).length - 1 := hrest ▸ (parse (more first rest)).length_le
          refine (outcome_parseStmts rest' hreadable).mono ?_
          rintro us ⟨ss, hss⟩
          exact ⟨_, .cons hs hss⟩
      refine h.congr ht fun t' ht' => ?_
      obtain ⟨first', rest', rfl, hkind⟩ := ht'.exists_more ht.1
      exact behind_parseStmts_cons (hkind ▸ hclose)
termination_by 8 * t.length + 2
decreasing_by
  all_goals subst_vars
  all_goals simp only [length_more] at *
  all_goals omega

end

/-- A whole text of statements is read, or the reader stops at the first token that cannot come next. -/
theorem outcome_parseAll (t : TokenStream) (ht : t.Readable) : Outcome (Derived Statements) (fun t => (parseAll t).2) t := by
  cases t with
  | broken error => exact ht.elim
  | done pos =>
    refine .pass ⟨_, .nil⟩ fun t' ht' => ?_
    obtain ⟨pos', rfl⟩ := ht'.exists_done
    rw [parseAll]
  | more first rest =>
    have h : Outcome (Derived Statements) (fun t => (parseAll (behind parse t)).2) (more first rest) := by
      refine (outcome_parse (more first rest) ht).andThen (q := fun t => (parseAll t).2) ht ?_ (fun error => ?_) ?_
      · rintro ts ⟨s, hs⟩
        exact .of_mem ⟨_, by simpa using Statements.cons hs .nil⟩
      · rw [parseAll]
      · rintro ts rest' hrest hreadable ⟨s, hs⟩
        have hle : rest'.length ≤ (more first rest).length - 1 := hrest ▸ (parse (more first rest)).length_le
        refine (outcome_parseAll rest' hreadable).mono ?_
        rintro us ⟨ss, hss⟩
        exact ⟨_, .cons hs hss⟩
    refine h.congr ht fun t' ht' => ?_
    obtain ⟨first', rest', rfl, -⟩ := ht'.exists_more ht.1
    rw [parseAll_more]
    rfl
termination_by t.length
decreasing_by
  subst_vars
  simp only [length_more] at hle ⊢
  omega

end Stmt

end C0Stack
