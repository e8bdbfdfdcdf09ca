import C0Stack.Proofs.Analysis.Agreement
import C0Stack.Proofs.Recognition.CompilationUnit

/-!
# No assignment is read as an operand

In the trees that are read from texts, a fault already stands in the place of each assignment that would be an operand, so
barring such assignments changes nothing (`Stmt.barred_parseAll`, `CompilationUnit.barred_parse`).
-/

namespace C0Stack

namespace Expr

open Grammar TokenStream

/-- What is allowed as an operand is allowed elsewhere. -/
theorem barred_of_operand {inOperand : Bool} {e : Expr} (h : e.barred inOperand = e) : e.barred false = e := by
  cases inOperand with
  | false => exact h
  | true =>
    cases e with
    | assign => exact nomatch h
    | cast value pos ty =>
      rw [barred, cast.injEq] at h ⊢
      exact ⟨barred_of_operand h.1, rfl, rfl⟩
    | binary left op pos right =>
      rw [barred, binary.injEq] at h ⊢
      exact ⟨barred_of_operand h.1, h.2⟩
    | int | literal | var | fault => rw [barred]
    | call | paren | neg | cut =>
      rw [barred] at h ⊢
      exact h

/-- The loop of casts adds no assignment. -/
theorem barred_parseCasts {inOperand : Bool} {e : Expr} (he : e.barred inOperand = e) (t : TokenStream) :
    (parseCasts e t).pair.1.barred inOperand = (parseCasts e t).pair.1 := by
  have hcut : ∀ error, (cut e error).barred inOperand = cut e error := fun error => by rw [barred, barred_of_operand he]
  cases t with
  | broken error =>
    rw [parseCasts]
    exact hcut error
  | done pos => rwa [pair_parseCasts_stop (nextKind?_done pos) (by simp)]
  | more first rest =>
    by_cases hfirst : first.kind = .kwAs
    · obtain ⟨ty, rest', rfl, hty, -⟩ | ⟨error, herror⟩ := take_cases .name (by simp) rest
      · rw [pair_parseCasts_as hfirst hty]
        refine barred_parseCasts ?_ rest'
        rw [barred, he]
      · rw [pair_parseCasts_cut hfirst herror]
        exact hcut error
    · rwa [pair_parseCasts_stop (nextKind?_more _ _) hfirst]
termination_by t.length

mutual

/-- Barring changes no expression that was read. -/
theorem barred_parse (t : TokenStream) : (parse t).pair.1.barred false = (parse t).pair.1 := by
  rw [pair_parse]
  exact barred_parseLevel .relational false t
termination_by 16 * t.length + 9
decreasing_by simp [rank]

/-- Barring changes no level that was read. -/
theorem barred_parseLevel (level : Precedence) (b : Bool) (t : TokenStream) :
    (parseLevel level b t).pair.1.barred b = (parseLevel level b t).pair.1 := by
  rw [pair_parseLevel]
  have hle := (parseOperand level b t).length_le
  exact barred_parseOperators level (barred_parseOperand level b t) (parseOperand level b t).pair.2
termination_by 16 * t.length + rank level
decreasing_by all_goals cases level <;> simp [rank, Parsed.pair] <;> omega

/-- The loop of operators adds no assignment as an operand. -/
theorem barred_parseOperators (level : Precedence) {b : Bool} {left : Expr} (hleft : left.barred b = left) (t : TokenStream) :
    (parseOperators level left t).pair.1.barred b = (parseOperators level left t).pair.1 := by
  by_cases hop : ∃ first rest op, t = more first rest ∧ BinaryOp.ofKindAt? level first.kind = some op
  · obtain ⟨first, rest, op, ht, hop⟩ := hop
    have hle := (parseOperand level true rest).length_le
    have hlen : t.length = rest.length + 1 := by rw [ht, length_more]
    rw [ht, pair_parseOperators_more hop]
    refine barred_parseOperators level ?_ (parseOperand level true rest).pair.2
    rw [barred, hleft, barred_parseOperand level true rest]
  · rwa [pair_parseOperators_stop]
    intro k hk
    cases t with
    | broken => simp at hk
    | done pos =>
      obtain rfl : Token.Kind.endOfFile = k := Option.some.inj hk
      cases level <;> rfl
    | more first rest =>
      obtain rfl : first.kind = k := Option.some.inj hk
      exact Option.eq_none_iff_forall_ne_some.2 fun op hop' => hop ⟨first, rest, op, rfl, hop'⟩
termination_by 16 * t.length
decreasing_by
  · cases level <;> simp only [rank] <;> omega
  · simp only [Parsed.pair]
    omega

/-- Barring changes no operand that was read. -/
theorem barred_parseOperand (level : Precedence) (b : Bool) (t : TokenStream) :
    (parseOperand level b t).pair.1.barred b = (parseOperand level b t).pair.1 := by
  cases level with
  | relational =>
    rw [pair_parseOperand_relational]
    exact barred_parseLevel .additive b t
  | additive =>
    rw [pair_parseOperand_additive]
    exact barred_parseLevel .multiplicative b t
  | multiplicative =>
    rw [pair_parseOperand_multiplicative, pair_parseCast]
    exact barred_parseCasts (barred_parseUnary b t) _
termination_by 16 * t.length + rank level - 1
decreasing_by all_goals simp [rank]

/-- Barring changes no unary expression that was read. -/
theorem barred_parseUnary (b : Bool) (t : TokenStream) : (parseUnary b t).pair.1.barred b = (parseUnary b t).pair.1 := by
  cases t with
  | done | broken =>
    rw [parseUnary]
    dsimp only [Parsed.pair]
    rw [barred]
  | more first rest =>
    by_cases hfirst : first.kind = .minus
    · rw [pair_parseUnary_minus hfirst]
      dsimp only
      rw [barred, barred_parseUnary true rest]
    · rw [pair_parseUnary_primary hfirst]
      exact barred_parsePrimary b first rest
termination_by 16 * t.length + 1
decreasing_by all_goals simp <;> omega

/-- Barring changes no primary expression that was read. -/
theorem barred_parsePrimary (b : Bool) (first : Token) (t : TokenStream) :
    (parsePrimary b first t).pair.1.barred b = (parsePrimary b first t).pair.1 := by
  by_cases hint : ∃ n, first.value = .integer n
  · obtain ⟨n, hv⟩ := hint
    rw [pair_parsePrimary_integer hv, barred]
  have hv : ∀ n, first.value ≠ .integer n := fun n h => hint ⟨n, h⟩
  by_cases hname : first.kind = .name
  · rw [pair_parsePrimary_name hname hv]
    exact barred_parseName b first.ident t
  by_cases hopen : first.kind = .openParen
  · obtain ⟨close, rest, -, -, htake⟩ | ⟨error, herror⟩ := take_cases .closeParen (by simp) (parse t).pair.2
    · rw [pair_parsePrimary_openParen hopen hv htake, barred, barred_parse t]
    · rw [pair_parsePrimary_cut hopen hv herror, barred, barred_parse t]
  by_cases hdouble : first.kind = .double
  · rw [pair_parsePrimary_double hdouble hv, barred]
  by_cases hstring : first.kind = .string
  · rw [pair_parsePrimary_string hstring hv, barred]
  rw [pair_parsePrimary_fault (by simp [hname, hopen, hdouble, hstring]) hv, barred]
termination_by 16 * t.length + 15

/-- Behind a name an assignment is read only where it is no operand. -/
theorem barred_parseName (b : Bool) (x : Ident) (t : TokenStream) :
    (parseName b x t).pair.1.barred b = (parseName b x t).pair.1 := by
  cases t with
  | done pos => rw [pair_parseName_var (nextKind?_done pos) (by simp), barred]
  | broken error =>
    rw [parseName]
    dsimp only [Parsed.pair]
    rw [barred]
  | more first rest =>
    by_cases hcall : first.kind = .openParen
    · rw [pair_parseName_call hcall, barred, barred_parseArguments rest]
    by_cases hassign : first.kind = .assign
    · cases b with
      | true => rw [pair_parseName_fault hassign x rest, barred]
      | false =>
        rw [pair_parseName_assign hassign, barred, if_neg Bool.false_ne_true, barred_parse rest]
    rw [pair_parseName_var (nextKind?_more _ _) ⟨hcall, hassign⟩, barred]
termination_by 16 * t.length
decreasing_by all_goals (simp; omega)

/-- Barring changes no arguments that were read. -/
theorem barred_parseArguments (t : TokenStream) : barredAll (parseArguments t).pair.1 = (parseArguments t).pair.1 := by
  by_cases hclose : t.nextKind? = some .closeParen
  · cases t with
    | done | broken => simp at hclose
    | more close rest => rw [pair_parseArguments_none (Option.some.inj hclose), barredAll]
  · rw [pair_parseArguments_some hclose]
    exact barred_parseArgumentList t
termination_by 16 * t.length + 11

/-- Barring changes no list of arguments that was read. -/
theorem barred_parseArgumentList (t : TokenStream) :
    barredAll (parseArgumentList t).pair.1 = (parseArgumentList t).pair.1 := by
  by_cases hcomma : (parse t).pair.2.nextKind? = some .comma
  · cases hrest : (parse t).pair.2 with
    | done | broken => simp [hrest] at hcomma
    | more comma rest =>
      have hlen : rest.length < t.length := by
        have hle := (parse t).length_le
        have hrest' : (parse t).rest = .more comma rest := hrest
        rw [hrest', length_more] at hle
        omega
      rw [pair_parseArgumentList_cons hrest (by simpa [hrest] using hcomma), barredAll, barred_parse t,
        barred_parseArgumentList rest]
  · obtain ⟨close, rest, -, -, htake⟩ | ⟨error, herror⟩ := take_cases .closeParen (by simp) (parse t).pair.2
    · rw [pair_parseArgumentList_one hcomma htake, barredAll, barredAll, barred_parse t]
    · rw [pair_parseArgumentList_cut hcomma herror, barredAll, barredAll, barredAll, barred_parse t, barred]
termination_by 16 * t.length + 10

end

end Expr

namespace Stmt

open Grammar TokenStream

/-- The semicolon changes nothing about the statement. -/
theorem barred_parseSemicolon {s : Stmt} (h : s.barred = s) (t : TokenStream) :
    (parseSemicolon s t).pair.1.barred = (parseSemicolon s t).pair.1 := by
  obtain ⟨semicolon, rest, rfl, hkind, -⟩ | ⟨error, herror⟩ := take_cases .semicolon (by simp) t
  · rwa [pair_parseSemicolon hkind]
  · rw [pair_parseSemicolon_fault herror, barred, barred, h]

/-- Barring changes no initial value that was read. -/
theorem barred_parseInit (constant : Bool) (t : TokenStream) :
    (parseInit constant t).pair.1.map (Expr.barred false) = (parseInit constant t).pair.1 := by
  obtain ⟨sign, rest, rfl, hkind, -⟩ | ⟨error, herror⟩ := take_cases .assign (by simp) t
  · rw [pair_parseInit_some hkind, Option.map_some, Expr.barred_parse rest]
  · cases constant with
    | true => rw [pair_parseInit_fault herror, Option.map_some, Expr.barred]
    | false => rw [pair_parseInit_none (nextKind?_ne_of_take herror), Option.map_none]

/-- Barring changes no declaration that was read. -/
theorem barred_parseDeclRest (pos : Position) (constant : Bool) (t : TokenStream) :
    (parseDeclRest pos constant t).pair.1.barred = (parseDeclRest pos constant t).pair.1 := by
  rw [pair_parseDeclRest]
  generalize t.takeTyped = r
  obtain ⟨error | ⟨x, ty⟩, rest⟩ := r
  · rfl
  · refine barred_parseSemicolon ?_ _
    rw [barred, barred_parseInit]

/-- Barring changes no return that was read. -/
theorem barred_parseReturnRest (pos : Position) (t : TokenStream) :
    (parseReturnRest pos t).pair.1.barred = (parseReturnRest pos t).pair.1 := by
  by_cases hsemi : t.nextKind? = some .semicolon
  · cases t with
    | done | broken => simp at hsemi
    | more semicolon rest => rw [pair_parseReturnRest_ret (Option.some.inj hsemi), barred]
  · rw [pair_parseReturnRest_value hsemi]
    refine barred_parseSemicolon ?_ _
    rw [barred, Expr.barred_parse]

mutual

/-- Barring changes no statement that was read. -/
theorem barred_parse (t : TokenStream) : (parse t).pair.1.barred = (parse t).pair.1 := by
  by_cases hlead : ∃ k ∈ leading, t.nextKind? = some k
  · cases t with
    | done | broken => simp [leading] at hlead
    | more first rest =>
      obtain ⟨k, hmem, hk⟩ := hlead
      obtain rfl : first.kind = k := Option.some.inj hk
      exact barred_parse_leading hmem rest
  · rw [pair_parse_expr (fun k hk h => hlead ⟨k, hk, h⟩)]
    refine barred_parseSemicolon ?_ _
    rw [barred, Expr.barred_parse]
termination_by 8 * t.length + 1

/-- The statements that their first token tells apart. -/
theorem barred_parse_leading {first : Token} (hmem : first.kind ∈ leading) (rest : TokenStream) :
    (parse (more first rest)).pair.1.barred = (parse (more first rest)).pair.1 := by
  cases hfirst : first.kind with
  | kwLet =>
    have hdeclares : declares? first.kind = some false := by simp [declares?, hfirst]
    rw [pair_parse_decl hdeclares]
    exact barred_parseDeclRest first.start false rest
  | kwConst =>
    have hdeclares : declares? first.kind = some true := by simp [declares?, hfirst]
    rw [pair_parse_decl hdeclares]
    exact barred_parseDeclRest first.start true rest
  | kwIf =>
    rw [pair_parse_if hfirst]
    exact barred_parseIfRest first.start rest
  | kwWhile =>
    have hle := (Expr.parse rest).length_le
    rw [pair_parse_while hfirst, barred, Expr.barred_parse, barred_parseBlock (Expr.parse rest).pair.2]
  | kwReturn =>
    rw [pair_parse_return hfirst]
    exact barred_parseReturnRest first.start rest
  | kwBreak =>
    rw [pair_parse_break hfirst]
    exact barred_parseSemicolon rfl rest
  | kwContinue =>
    rw [pair_parse_continue hfirst]
    exact barred_parseSemicolon rfl rest
  | openBrace => rw [pair_parse_brace hfirst, barred, barred_parseBody rest]
  | semicolon => rw [pair_parse_semicolon hfirst, barred]
  | _ => simp [leading, hfirst] at hmem
termination_by 8 * rest.length + 7
decreasing_by all_goals simp [Parsed.pair] <;> omega

/-- Barring changes no conditional that was read. -/
theorem barred_parseIfRest (pos : Position) (t : TokenStream) :
    (parseIfRest pos t).pair.1.barred = (parseIfRest pos t).pair.1 := by
  have hle := (Expr.parse t).length_le
  have hle' := (parseBlock (Expr.parse t).pair.2).length_le
  have hthen : (ifThen pos (Expr.parse t).pair.1 (parseBlock (Expr.parse t).pair.2).pair.1).barred = ifThen pos _ _ :=
    congrArg₂ (ifThen pos) (Expr.barred_parse t) (barred_parseBlock (Expr.parse t).pair.2)
  cases hrest : (parseBlock (Expr.parse t).pair.2).pair.2 with
  | broken error =>
    rw [pair_parseIfRest_fault rfl (Prod.ext rfl hrest)]
    exact congrArg (seq · (fault error)) hthen
  | done pos' =>
    have hblock : (parseBlock (Expr.parse t).pair.2).pair = (_, done pos') := Prod.ext rfl hrest
    rwa [pair_parseIfRest_then rfl hblock (nextKind?_done pos') (by simp)]
  | more first rest =>
    by_cases helse : first.kind = .kwElse
    · have hlen : rest.length < t.length := by
        have hrest' : (parseBlock (Expr.parse t).pair.2).rest = more first rest := hrest
        rw [hrest', length_more] at hle'
        simp only [Parsed.pair] at hle'
        omega
      rw [pair_parseIfRest_else rfl (Prod.ext rfl hrest) helse]
      obtain ⟨-, hcondition, hbody⟩ := ifThen.inj hthen
      exact (ifElse.injEq ..).mpr ⟨rfl, hcondition, hbody, rfl, barred_parseElse rest⟩
    · have hblock : (parseBlock (Expr.parse t).pair.2).pair = (_, more first rest) := Prod.ext rfl hrest
      rwa [pair_parseIfRest_then rfl hblock (nextKind?_more first rest) helse]
termination_by 8 * t.length + 5
decreasing_by
  · simp only [Parsed.pair]
    omega
  · omega

/-- Barring changes no alternative that was read. -/
theorem barred_parseElse (t : TokenStream) : (parseElse t).pair.1.barred = (parseElse t).pair.1 := by
  by_cases hif : t.nextKind? = some .kwIf
  · cases t with
    | done | broken => simp at hif
    | more first rest =>
      rw [pair_parseElse_if (Option.some.inj hif)]
      exact barred_parseIfRest first.start rest
  by_cases hbrace : t.nextKind? = some .openBrace
  · cases t with
    | done | broken => simp at hbrace
    | more first rest => rw [pair_parseElse_brace (Option.some.inj hbrace), barred, barred_parseBody rest]
  rw [pair_parseElse_fault hif hbrace, barred]
termination_by 8 * t.length
decreasing_by all_goals (simp; omega)

/-- Barring changes no block that was read. -/
theorem barred_parseBlock (t : TokenStream) : (parseBlock t).pair.1.barred = (parseBlock t).pair.1 := by
  obtain ⟨brace, rest, ht, hbrace, -⟩ | ⟨error, herror⟩ := take_cases .openBrace (by simp) t
  · have hlen : t.length = rest.length + 1 := by rw [ht, length_more]
    rw [ht, pair_parseBlock hbrace, barred, barred_parseBody rest]
  · rw [pair_parseBlock_fault herror, barred]
termination_by 8 * t.length + 4

/-- Barring changes no body that was read. -/
theorem barred_parseBody (t : TokenStream) : (parseBody t).pair.1.1.barred = (parseBody t).pair.1.1 := by
  obtain ⟨close, rest, -, -, htake⟩ | ⟨error, herror⟩ := take_cases .closeBrace (by simp) (parseStmts t).pair.2
  · rw [pair_parseBody htake]
    exact barred_parseStmts t
  · rw [pair_parseBody_fault herror, barred, barred, barred_parseStmts t]
termination_by 8 * t.length + 3

/-- Barring changes no statements that were read. -/
theorem barred_parseStmts (t : TokenStream) : (parseStmts t).pair.1.barred = (parseStmts t).pair.1 := by
  by_cases hend : ∀ first rest, t = more first rest → first.kind = .closeBrace
  · rw [pair_parseStmts_nil hend, barred]
  · cases t with
    | done | broken => simp at hend
    | more first rest =>
      have hfirst : first.kind ≠ .closeBrace := by simpa using hend
      have hle := (parse (more first rest)).length_le
      rw [pair_parseStmts_cons hfirst, barred, barred_parse (more first rest),
        barred_parseStmts (parse (more first rest)).pair.2]
termination_by 8 * t.length + 2
decreasing_by
  · simp
  · simp only [Parsed.pair, length_more] at hle ⊢
    omega

end

/-- Barring changes no text of statements. -/
theorem barred_parseAll (t : TokenStream) : (parseAll t).1.barred = (parseAll t).1 := by
  cases t with
  | done | broken =>
    rw [parseAll]
    rfl
  | more first rest =>
    have hle := (parse (more first rest)).length_le
    rw [parseAll_more, barred, barred_parse (more first rest), barred_parseAll (parse (more first rest)).pair.2]
termination_by t.length
decreasing_by
  simp only [Parsed.pair, length_more] at hle ⊢
  omega

end Stmt

open Grammar TokenStream

/-- Barring the assignments changes no function that was read. -/
theorem Function.barred_parse (t : TokenStream) : (parse t).pair.1.barred = (parse t).pair.1 := by
  rw [pair_parse_eq_ofHeader]
  obtain ⟨keyword, name, params, returns, brace, rest⟩ := header t
  cases keyword with
  | error => rfl
  | ok keyword =>
    cases name with
    | error => rfl
    | ok name =>
      cases returns with
      | error => rfl
      | ok returns =>
        cases brace with
        | error => rfl
        | ok brace => exact congrArg (defn keyword.start name.ident params returns.ident · _) (Stmt.barred_parseBody rest)

namespace CompilationUnit

/-- Barring changes no declarations that were read. -/
theorem barred_parseGlobals (t : TokenStream) : (parseGlobals t).1.barred = (parseGlobals t).1 := by
  cases hnext : t.nextKind?.bind declares? with
  | none =>
    rw [parseGlobals_nil (fun h => by simp [h, declares?] at hnext) (fun h => by simp [h, declares?] at hnext)]
    rfl
  | some constant =>
    cases ht : t with
    | done | broken => simp [ht, declares?] at hnext
    | more first rest =>
      have hfirst : declares? first.kind = some constant := by simpa [ht] using hnext
      have hle := (Stmt.parseDecl (more first rest)).length_le
      have hlen : t.length = rest.length + 1 := by rw [ht, length_more]
      have hdecl : (Stmt.parseDecl (more first rest)).pair.1.barred = (Stmt.parseDecl (more first rest)).pair.1 := by
        rw [Stmt.pair_parseDecl hfirst]
        exact Stmt.barred_parseDeclRest first.start constant rest
      rw [parseGlobals_cons hfirst, Stmt.barred, hdecl, barred_parseGlobals (Stmt.parseDecl (more first rest)).pair.2]
termination_by t.length
decreasing_by
  simp only [Parsed.pair, length_more] at hle ⊢
  omega

/-- Barring changes no functions that were read. -/
theorem barred_parseFunctions (t : TokenStream) : (parseFunctions t).1.map Function.barred = (parseFunctions t).1 := by
  by_cases hnext : t.nextKind? = some .kwFn
  · cases ht : t with
    | done | broken => simp [ht] at hnext
    | more first rest =>
      have hfirst : first.kind = .kwFn := by simpa [ht] using hnext
      have hle := (Function.parse (more first rest)).length_le
      have hlen : t.length = rest.length + 1 := by rw [ht, length_more]
      rw [parseFunctions_cons hfirst, List.map_cons, Function.barred_parse,
        barred_parseFunctions (Function.parse (more first rest)).pair.2]
  · rw [parseFunctions_nil hnext]
    rfl
termination_by t.length
decreasing_by
  simp only [Parsed.pair, length_more] at hle ⊢
  omega

/-- Barring changes no program that was read. -/
theorem barred_parse (t : TokenStream) : (parse t).1.barred = (parse t).1 := by
  have hglobals := barred_parseGlobals t
  have hfunctions := barred_parseFunctions (parseGlobals t).2
  unfold barred parse
  dsimp only
  rw [hglobals, hfunctions]

end CompilationUnit

end C0Stack
