import C0Stack.Compiler
import C0Stack.Proofs.Assembling
import C0Stack.Proofs.Recognition.CompilationUnit

/-!
# The faults of a tree

A tree can hold several faults, but they are one and the same: the one that the stream behind the tree is broken with
(`CompilationUnit.reports_parse`, `Stmt.reports_parseAll`). The checks that are made while code is emitted never find that a token is
unexpected, so a text that is refused for an unexpected token is refused with this fault (`CompilationUnit.raises_emit`,
`Stmt.raises_emit`).
-/

namespace C0Stack

/-! ## Faults in a tree -/

namespace Expr

mutual

/-- The fault stands in the tree. -/
def Holds (d : Diagnostic) : Expr → Prop
  | int _ _ | literal _ _ | var _ => False
  | call _ args => AnyHolds d args
  | assign _ value => value.Holds d
  | paren _ inner => inner.Holds d
  | neg _ operand => operand.Holds d
  | cast value _ _ => value.Holds d
  | binary left _ _ right => left.Holds d ∨ right.Holds d
  | fault error => d = error
  | cut read error => read.Holds d ∨ d = error

/-- The fault stands in one of the trees. -/
def AnyHolds (d : Diagnostic) : List Expr → Prop
  | [] => False
  | e :: es => e.Holds d ∨ AnyHolds d es

end

end Expr

/-- The fault stands in the tree. -/
def Stmt.Holds (d : Diagnostic) : Stmt → Prop
  | nil | empty | leave _ | again _ | ret _ _ => False
  | seq first rest => first.Holds d ∨ rest.Holds d
  | decl _ _ _ _ init => ∃ e ∈ init, e.Holds d
  | expr value | retValue _ value => value.Holds d
  | block body => body.Holds d
  | ifThen _ condition body | loop _ condition body => condition.Holds d ∨ body.Holds d
  | ifElse _ condition body _ alternative => condition.Holds d ∨ body.Holds d ∨ alternative.Holds d
  | fault error => d = error

/-- The fault stands in the tree. -/
def Function.Holds (d : Diagnostic) : Function → Prop
  | defn _ _ _ _ body _ => body.Holds d
  | fault _ _ error => d = error

/-- The fault stands in the tree, or it is the end that was not reached. -/
def CompilationUnit.Holds (d : Diagnostic) (u : CompilationUnit) : Prop :=
  u.globals.Holds d ∨ (∃ f ∈ u.functions, f.Holds d) ∨ u.ending = .error d

/-! ## One fault in what was read -/

namespace Grammar

open TokenStream

/-- The faults in what was read are the one that the stream behind it is broken with. -/
def Reports {α : Type} (holds : Diagnostic → α → Prop) (r : α × TokenStream) : Prop := ∀ d, holds d r.1 → r.2 = broken d

variable {α β : Type} {holds : Diagnostic → α → Prop} {x : α} {t : TokenStream}

/-- Where the stream goes on behind it, there is no fault in what was read. -/
theorem Reports.not_holds {first : Token} {rest : TokenStream} (h : Reports holds (x, more first rest)) (d : Diagnostic) :
    ¬ holds d x := by
  intro hd
  exact nomatch h d hd

/-- If a token cannot be taken behind it, the fault is the same. -/
theorem Reports.take {kind : Token.Kind} {error : Diagnostic} {rest : TokenStream} (h : Reports holds (x, t))
    (htake : (t.take kind).pair = (.error error, rest)) (d : Diagnostic) (hd : holds d x) : d = error := by
  obtain rfl : t = broken d := h d hd
  exact Except.error.inj (congrArg Prod.fst htake)

/-- If a token cannot be taken, the stream is broken with the fault. -/
theorem reports_take {kind : Token.Kind} (hkind : kind ≠ .endOfFile) (t : TokenStream) :
    Reports (fun d r => r = .error d) (t.take kind).pair := by
  intro d hd
  obtain ⟨first, rest, -, -, htake⟩ | ⟨error, herror⟩ := take_cases kind hkind t
  · rw [htake] at hd
    exact nomatch hd
  · rw [herror] at hd ⊢
    rw [Except.error.inj hd]

/-- Nothing is read from a stream that is broken already. -/
theorem Reports.behind {r : TokenStream → TokenStream} (h : Reports holds (x, t)) (hr : ∀ error, r (broken error) = broken error) :
    Reports holds (x, r t) := by
  intro d hd
  obtain rfl : t = broken d := h d hd
  exact hr d

end Grammar

namespace Expr

open Grammar TokenStream

/-- The loop of casts adds no other fault. -/
theorem reports_parseCasts (t : TokenStream) {e : Expr} (he : Reports Holds (e, t)) : Reports Holds (parseCasts e t).pair := by
  cases t with
  | broken error =>
    rw [parseCasts]
    rintro d (hd | rfl)
    · exact he d hd
    · rfl
  | done pos => rwa [pair_parseCasts_stop (nextKind?_done pos) (by simp)]
  | more first rest =>
    by_cases hfirst : first.kind = .kwAs
    · obtain ⟨ty, rest', rfl, hty, -⟩ | ⟨error, herror⟩ := take_cases .name (by simp) rest
      · rw [pair_parseCasts_as hfirst hty]
        exact reports_parseCasts rest' fun d hd => absurd hd (he.not_holds d)
      · rw [pair_parseCasts_cut hfirst herror]
        rintro d (hd | rfl)
        · exact absurd hd (he.not_holds d)
        · rfl
    · rwa [pair_parseCasts_stop (nextKind?_more _ _) hfirst]
termination_by t.length

mutual

/-- The faults of an expression are the one that the stream behind it is broken with. -/
theorem reports_parse (t : TokenStream) : Reports Holds (parse t).pair := by
  rw [pair_parse]
  exact reports_parseLevel .relational false t
termination_by 16 * t.length + 9
decreasing_by simp [rank]

/-- The same for a level. -/
theorem reports_parseLevel (level : Precedence) (b : Bool) (t : TokenStream) : Reports Holds (parseLevel level b t).pair := by
  rw [pair_parseLevel]
  have hle := (parseOperand level b t).length_le
  exact reports_parseOperators level (parseOperand level b t).pair.2 (reports_parseOperand level b t)
termination_by 16 * t.length + rank level
decreasing_by all_goals cases level <;> simp [rank, Parsed.pair] <;> omega

/-- The loop of operators adds no other fault. -/
theorem reports_parseOperators (level : Precedence) (t : TokenStream) {left : Expr} (hleft : Reports Holds (left, t)) :
    Reports Holds (parseOperators level left t).pair := by
  by_cases hop : ∃ first rest op, t = more first rest ∧ BinaryOp.ofKindAt? level first.kind = some op
  · obtain ⟨first, rest, op, ht, hop⟩ := hop
    have hle := (parseOperand level true rest).length_le
    have hlen : t.length = rest.length + 1 := by rw [ht, length_more]
    rw [ht, pair_parseOperators_more hop]
    rw [ht] at hleft
    refine reports_parseOperators level (parseOperand level true rest).pair.2 ?_
    rintro d (hd | hd)
    · exact absurd hd (hleft.not_holds d)
    · exact reports_parseOperand level true rest d hd
  · rwa [pair_parseOperators_stop]
    intro k hk
    cases t with
    | broken => simp at hk
    | done pos =>
      obtain rfl : Token.Kind.endOfFile = k := Option.some.inj hk
      cases level <;> rfl
    | more first rest =>
      obtain rfl : first.kind = k := Option.some.inj hk
      exact Option.eq_none_iff_forall_ne_some.2 fun op hop' => hop ⟨first, rest, op, rfl, hop'⟩
termination_by 16 * t.length
decreasing_by
  · cases level <;> simp only [rank] <;> omega
  · simp only [Parsed.pair]
    omega

/-- The same for an operand. -/
theorem reports_parseOperand (level : Precedence) (b : Bool) (t : TokenStream) : Reports Holds (parseOperand level b t).pair := by
  cases level with
  | relational =>
    rw [pair_parseOperand_relational]
    exact reports_parseLevel .additive b t
  | additive =>
    rw [pair_parseOperand_additive]
    exact reports_parseLevel .multiplicative b t
  | multiplicative =>
    rw [pair_parseOperand_multiplicative, pair_parseCast]
    exact reports_parseCasts _ (reports_parseUnary b t)
termination_by 16 * t.length + rank level - 1
decreasing_by all_goals (dsimp only [rank]; omega)

/-- The same for a unary expression. -/
theorem reports_parseUnary (b : Bool) (t : TokenStream) : Reports Holds (parseUnary b t).pair := by
  cases t with
  | done pos =>
    rw [parseUnary]
    rintro d rfl
    rfl
  | broken error =>
    rw [parseUnary]
    rintro d rfl
    rfl
  | more first rest =>
    by_cases hfirst : first.kind = .minus
    · rw [pair_parseUnary_minus hfirst]
      exact reports_parseUnary true rest
    · rw [pair_parseUnary_primary hfirst]
      exact reports_parsePrimary b first rest
termination_by 16 * t.length + 1
decreasing_by all_goals simp <;> omega

/-- The same for a primary expression. -/
theorem reports_parsePrimary (b : Bool) (first : Token) (t : TokenStream) : Reports Holds (parsePrimary b first t).pair := by
  by_cases hint : ∃ n, first.value = .integer n
  · obtain ⟨n, hv⟩ := hint
    rw [pair_parsePrimary_integer hv]
    exact fun d hd => hd.elim
  have hv : ∀ n, first.value ≠ .integer n := fun n h => hint ⟨n, h⟩
  by_cases hname : first.kind = .name
  · rw [pair_parsePrimary_name hname hv]
    exact reports_parseName b first.ident t
  by_cases hopen : first.kind = .openParen
  · have hparse := reports_parse t
    obtain ⟨close, rest, hclose, -, htake⟩ | ⟨error, herror⟩ := take_cases .closeParen (by simp) (parse t).pair.2
    · rw [pair_parsePrimary_openParen hopen hv htake]
      intro d hd
      exact nomatch hclose.symm.trans (hparse d hd)
    · rw [pair_parsePrimary_cut hopen hv herror]
      rintro d (hd | rfl)
      · rw [hparse.take herror d hd]
      · rfl
  by_cases hdouble : first.kind = .double
  · rw [pair_parsePrimary_double hdouble hv]
    exact fun d hd => hd.elim
  by_cases hstring : first.kind = .string
  · rw [pair_parsePrimary_string hstring hv]
    exact fun d hd => hd.elim
  rw [pair_parsePrimary_fault (by simp [hname, hopen, hdouble, hstring]) hv]
  rintro d rfl
  rfl
termination_by 16 * t.length + 15

/-- The same for a name and what comes behind it. -/
theorem reports_parseName (b : Bool) (x : Ident) (t : TokenStream) : Reports Holds (parseName b x t).pair := by
  cases t with
  | done pos =>
    rw [pair_parseName_var (nextKind?_done pos) (by simp)]
    exact fun d hd => hd.elim
  | broken error =>
    rw [parseName]
    rintro d rfl
    rfl
  | more first rest =>
    by_cases hcall : first.kind = .openParen
    · rw [pair_parseName_call hcall]
      exact reports_parseArguments rest
    by_cases hassign : first.kind = .assign
    · cases b with
      | true =>
        rw [pair_parseName_fault hassign x rest]
        rintro d rfl
        rfl
      | false =>
        rw [pair_parseName_assign hassign]
        exact reports_parse rest
    rw [pair_parseName_var (nextKind?_more _ _) ⟨hcall, hassign⟩]
    exact fun d hd => hd.elim
termination_by 16 * t.length
decreasing_by all_goals (simp; omega)

/-- The same for the arguments of a call. -/
theorem reports_parseArguments (t : TokenStream) : Reports AnyHolds (parseArguments t).pair := by
  by_cases hclose : t.nextKind? = some .closeParen
  · cases t with
    | done | broken => simp at hclose
    | more close rest =>
      rw [pair_parseArguments_none (Option.some.inj hclose)]
      exact fun d hd => hd.elim
  · rw [pair_parseArguments_some hclose]
    exact reports_parseArgumentList t
termination_by 16 * t.length + 11

/-- The same for a list of at least one argument. -/
theorem reports_parseArgumentList (t : TokenStream) : Reports AnyHolds (parseArgumentList t).pair := by
  have hparse := reports_parse t
  by_cases hcomma : (parse t).pair.2.nextKind? = some .comma
  · cases hrest : (parse t).pair.2 with
    | done | broken => simp [hrest] at hcomma
    | more comma rest =>
      have hlen : rest.length < t.length := by
        have hle := (parse t).length_le
        have hrest' : (parse t).rest = .more comma rest := hrest
        rw [hrest', length_more] at hle
        omega
      rw [pair_parseArgumentList_cons hrest (by simpa [hrest] using hcomma)]
      rintro d (hd | hd)
      · exact nomatch hrest.symm.trans (hparse d hd)
      · exact reports_parseArgumentList rest d hd
  · obtain ⟨close, rest, hclose, -, htake⟩ | ⟨error, herror⟩ := take_cases .closeParen (by simp) (parse t).pair.2
    · rw [pair_parseArgumentList_one hcomma htake]
      rintro d (hd | hd)
      · exact nomatch hclose.symm.trans (hparse d hd)
      · exact hd.elim
    · rw [pair_parseArgumentList_cut hcomma herror]
      rintro d (hd | rfl | hd)
      · rw [hparse.take herror d hd]
      · rfl
      · exact hd.elim
termination_by 16 * t.length + 10

end

end Expr

namespace Stmt

open Grammar TokenStream

/-- The semicolon adds no other fault. -/
theorem reports_parseSemicolon {s : Stmt} {t : TokenStream} (h : Reports Holds (s, t)) :
    Reports Holds (parseSemicolon s t).pair := by
  obtain ⟨semicolon, rest, rfl, hkind, -⟩ | ⟨error, herror⟩ := take_cases .semicolon (by simp) t
  · rw [pair_parseSemicolon hkind]
    exact fun d hd => absurd hd (h.not_holds d)
  · rw [pair_parseSemicolon_fault herror]
    rintro d (hd | rfl)
    · rw [h.take herror d hd]
    · rfl

/-- The faults of an initial value are the one that the stream behind it is broken with. -/
theorem reports_parseInit (constant : Bool) (t : TokenStream) :
    Reports (fun d init => ∃ e ∈ init, Expr.Holds d e) (parseInit constant t).pair := by
  obtain ⟨sign, rest, rfl, hkind, -⟩ | ⟨error, herror⟩ := take_cases .assign (by simp) t
  · rw [pair_parseInit_some hkind]
    rintro d ⟨e, ⟨⟩, hd⟩
    exact Expr.reports_parse rest d hd
  · cases constant with
    | true =>
      rw [pair_parseInit_fault herror]
      rintro d ⟨e, ⟨⟩, rfl⟩
      rfl
    | false =>
      rw [pair_parseInit_none (nextKind?_ne_of_take herror)]
      exact fun d ⟨e, he, _⟩ => nomatch he

/-- If a name and a type cannot be taken, the stream is broken with the fault. -/
theorem reports_takeTyped (t : TokenStream) : Reports (fun d r => r = .error d) t.takeTyped := by
  intro d hd
  rw [takeTyped_snd]
  unfold takeTyped at hd
  dsimp only [Parsed.pair] at hd
  cases hx : (t.take .name).value with
  | error error =>
    simp only [hx, Except.error.injEq] at hd
    subst hd
    have hrest : behind (take .name) t = broken error := reports_take (by simp) t error hx
    rw [hrest]
    rfl
  | ok x =>
    cases hty : (((t.take .name).rest.take .colon).rest.take .name).value with
    | error error =>
      simp only [hx, hty, Except.error.injEq] at hd
      subst hd
      exact reports_take (by simp) _ error hty
    | ok ty => simp [hx, hty] at hd

/-- The faults of a declaration are the one that the stream behind it is broken with. -/
theorem reports_parseDeclRest (pos : Position) (constant : Bool) (t : TokenStream) :
    Reports Holds (parseDeclRest pos constant t).pair := by
  rw [pair_parseDeclRest]
  have htyped := reports_takeTyped t
  generalize t.takeTyped = r at htyped
  obtain ⟨error | ⟨x, ty⟩, rest⟩ := r
  · rintro d rfl
    exact htyped d rfl
  · exact reports_parseSemicolon (reports_parseInit constant rest)

/-- A condition and a block behind it. -/
theorem reports_condition (f : Expr → Stmt → Stmt) (hf : ∀ d e s, (f e s).Holds d → e.Holds d ∨ s.Holds d) {t : TokenStream}
    (h : Reports Holds (parseBlock (Expr.parse t).pair.2).pair) :
    Reports Holds (f (Expr.parse t).pair.1 (parseBlock (Expr.parse t).pair.2).pair.1,
      (parseBlock (Expr.parse t).pair.2).pair.2) := by
  intro d hd
  rcases hf d _ _ hd with hd | hd
  · exact (Expr.reports_parse t).behind behind_parseBlock_broken d hd
  · exact h d hd

mutual

/-- The faults of a statement are the one that the stream behind it is broken with. -/
theorem reports_parse (t : TokenStream) : Reports Holds (parse t).pair := by
  by_cases hlead : ∃ k ∈ leading, t.nextKind? = some k
  · cases t with
    | done | broken => simp [leading] at hlead
    | more first rest =>
      obtain ⟨k, hmem, hk⟩ := hlead
      obtain rfl : first.kind = k := Option.some.inj hk
      exact reports_parse_leading hmem rest
  · rw [pair_parse_expr (fun k hk h => hlead ⟨k, hk, h⟩)]
    exact reports_parseSemicolon (Expr.reports_parse t)
termination_by 8 * t.length + 1

/-- The statements that their first token tells apart. -/
theorem reports_parse_leading {first : Token} (hmem : first.kind ∈ leading) (rest : TokenStream) :
    Reports Holds (parse (more first rest)).pair := by
  cases hfirst : first.kind with
  | kwLet =>
    have hdeclares : declares? first.kind = some false := by simp [declares?, hfirst]
    rw [pair_parse_decl hdeclares]
    exact reports_parseDeclRest first.start false rest
  | kwConst =>
    have hdeclares : declares? first.kind = some true := by simp [declares?, hfirst]
    rw [pair_parse_decl hdeclares]
    exact reports_parseDeclRest first.start true rest
  | kwIf =>
    rw [pair_parse_if hfirst]
    exact reports_parseIfRest first.start rest
  | kwWhile =>
    rw [pair_parse_while hfirst]
    have hle := (Expr.parse rest).length_le
    exact reports_condition (.loop first.start) (fun _ _ _ => id) (reports_parseBlock (Expr.parse rest).pair.2)
  | kwReturn =>
    rw [pair_parse_return hfirst]
    by_cases hsemi : rest.nextKind? = some .semicolon
    · cases rest with
      | done | broken => simp at hsemi
      | more semicolon rest =>
        rw [pair_parseReturnRest_ret (Option.some.inj hsemi)]
        exact fun d hd => hd.elim
    · rw [pair_parseReturnRest_value hsemi]
      exact reports_parseSemicolon (Expr.reports_parse rest)
  | kwBreak =>
    rw [pair_parse_break hfirst]
    exact reports_parseSemicolon fun d hd => hd.elim
  | kwContinue =>
    rw [pair_parse_continue hfirst]
    exact reports_parseSemicolon fun d hd => hd.elim
  | openBrace =>
    rw [pair_parse_brace hfirst]
    exact reports_parseBody rest
  | semicolon =>
    rw [pair_parse_semicolon hfirst]
    exact fun d hd => hd.elim
  | _ => simp [leading, hfirst] at hmem
termination_by 8 * rest.length + 7
decreasing_by all_goals simp [Parsed.pair] <;> omega

/-- The same for a conditional. -/
theorem reports_parseIfRest (pos : Position) (t : TokenStream) : Reports Holds (parseIfRest pos t).pair := by
  have hle := (Expr.parse t).length_le
  have hle' := (parseBlock (Expr.parse t).pair.2).length_le
  have hthen := reports_condition (.ifThen pos) (fun _ _ _ => id) (reports_parseBlock (Expr.parse t).pair.2)
  cases hrest : (parseBlock (Expr.parse t).pair.2).pair.2 with
  | broken error =>
    rw [pair_parseIfRest_fault rfl (Prod.ext rfl hrest)]
    rw [hrest] at hthen
    rintro d (hd | rfl)
    · exact hthen d hd
    · rfl
  | done pos' =>
    have hblock : (parseBlock (Expr.parse t).pair.2).pair = (_, done pos') := Prod.ext rfl hrest
    rw [pair_parseIfRest_then rfl hblock (nextKind?_done pos') (by simp)]
    rwa [hrest] at hthen
  | more first rest =>
    rw [hrest] at hthen
    by_cases helse : first.kind = .kwElse
    · have hlen : rest.length < t.length := by
        have hrest' : (parseBlock (Expr.parse t).pair.2).rest = more first rest := hrest
        rw [hrest', length_more] at hle'
        simp only [Parsed.pair] at hle'
        omega
      rw [pair_parseIfRest_else rfl (Prod.ext rfl hrest) helse]
      rintro d (hd | hd | hd)
      · exact absurd (.inl hd) (hthen.not_holds d)
      · exact absurd (.inr hd) (hthen.not_holds d)
      · exact reports_parseElse rest d hd
    · have hblock : (parseBlock (Expr.parse t).pair.2).pair = (_, more first rest) := Prod.ext rfl hrest
      rwa [pair_parseIfRest_then rfl hblock (nextKind?_more first rest) helse]
termination_by 8 * t.length + 5
decreasing_by
  · simp only [Parsed.pair]
    omega
  · omega

/-- The same for what stands behind `else`. -/
theorem reports_parseElse (t : TokenStream) : Reports Holds (parseElse t).pair := by
  by_cases hif : t.nextKind? = some .kwIf
  · cases t with
    | done | broken => simp at hif
    | more first rest =>
      rw [pair_parseElse_if (Option.some.inj hif)]
      exact reports_parseIfRest first.start rest
  by_cases hbrace : t.nextKind? = some .openBrace
  · cases t with
    | done | broken => simp at hbrace
    | more first rest =>
      rw [pair_parseElse_brace (Option.some.inj hbrace)]
      exact reports_parseBody rest
  rw [pair_parseElse_fault hif hbrace]
  rintro d rfl
  rfl
termination_by 8 * t.length
decreasing_by all_goals (simp; omega)

/-- The same for a block. -/
theorem reports_parseBlock (t : TokenStream) : Reports Holds (parseBlock t).pair := by
  obtain ⟨brace, rest, ht, hbrace, -⟩ | ⟨error, herror⟩ := take_cases .openBrace (by simp) t
  · have hlen : t.length = rest.length + 1 := by rw [ht, length_more]
    rw [ht, pair_parseBlock hbrace]
    exact reports_parseBody rest
  · rw [pair_parseBlock_fault herror]
    rintro d rfl
    rfl
termination_by 8 * t.length + 4

/-- The same for the body of a block. -/
theorem reports_parseBody (t : TokenStream) : Reports (fun d (r : Stmt × Position) => r.1.Holds d) (parseBody t).pair := by
  have hstmts := reports_parseStmts t
  obtain ⟨close, rest, hclose, -, htake⟩ | ⟨error, herror⟩ := take_cases .closeBrace (by simp) (parseStmts t).pair.2
  · rw [pair_parseBody htake]
    intro d hd
    exact nomatch hclose.symm.trans (hstmts d hd)
  · rw [pair_parseBody_fault herror]
    rintro d (hd | rfl)
    · rw [hstmts.take herror d hd]
    · rfl
termination_by 8 * t.length + 3

/-- The same for statements in a row. -/
theorem reports_parseStmts (t : TokenStream) : Reports Holds (parseStmts t).pair := by
  by_cases hend : ∀ first rest, t = more first rest → first.kind = .closeBrace
  · rw [pair_parseStmts_nil hend]
    exact fun d hd => hd.elim
  · cases t with
    | done | broken => simp at hend
    | more first rest =>
      have hfirst : first.kind ≠ .closeBrace := by simpa using hend
      have hle := (parse (more first rest)).length_le
      rw [pair_parseStmts_cons hfirst]
      rintro d (hd | hd)
      · exact (reports_parse (more first rest)).behind behind_parseStmts_broken d hd
      · exact reports_parseStmts (parse (more first rest)).pair.2 d hd
termination_by 8 * t.length + 2
decreasing_by
  · simp
  · simp only [Parsed.pair, length_more] at hle ⊢
    omega

end

/-- No statements are read from a broken stream. -/
theorem parseAll_broken (error : Diagnostic) : (parseAll (broken error)).2 = broken error := by
  rw [parseAll]

/-- The faults of a text of statements are the one that the stream is broken with in the end. -/
theorem reports_parseAll (t : TokenStream) : Reports Holds (parseAll t) := by
  cases t with
  | done pos =>
    rw [parseAll]
    exact fun d hd => hd.elim
  | broken error =>
    rw [parseAll]
    rintro d rfl
    rfl
  | more first rest =>
    have hle := (parse (more first rest)).length_le
    rw [parseAll_more]
    rintro d (hd | hd)
    · exact (reports_parse (more first rest)).behind (r := fun t => (parseAll t).2) parseAll_broken d hd
    · exact reports_parseAll (parse (more first rest)).pair.2 d hd
termination_by t.length
decreasing_by
  simp only [Parsed.pair, length_more] at hle ⊢
  omega

end Stmt

open Grammar TokenStream

namespace Function

/-- The stream behind a header is broken with whatever stands in place of one of its tokens. -/
theorem rest_header_of_error {t : TokenStream} {d : Diagnostic}
    (h : (header t).keyword = .error d ∨ (header t).name = .error d ∨ (header t).returns = .error d ∨ (header t).brace = .error d) :
    (header t).rest = broken d := by
  have hpass : ∀ {kind : Token.Kind} {t : TokenStream}, t = broken d → (t.take kind).rest = broken d := by
    rintro kind _ rfl
    rfl
  have hparams : ∀ {t : TokenStream}, t = broken d → (parseParams t).rest = broken d := by
    rintro _ rfl
    exact behind_parseParams_broken d
  have hafterName : ∀ {t : TokenStream}, t = broken d →
      ((((((parseParams (t.take .openParen).rest).rest.take .closeParen).rest.take .arrow).rest.take .name).rest).take
        .openBrace).rest = broken d := fun h => hpass (hpass (hpass (hpass (hparams (hpass h)))))
  rcases h with h | h | h | h
  · exact hafterName (hpass (reports_take (by simp) _ d h))
  · exact hafterName (reports_take (by simp) _ d h)
  · exact hpass (reports_take (by simp) _ d h)
  · exact reports_take (by simp) _ d h

/-- The faults of a function are the one that the stream behind it is broken with. -/
theorem reports_parse (t : TokenStream) : Reports Holds (parse t).pair := by
  have hrest : ∀ d, _ → (header t).rest = broken d := fun d => rest_header_of_error
  rw [pair_parse_eq_ofHeader]
  generalize header t = h at hrest ⊢
  obtain ⟨keyword, name, params, returns, brace, rest⟩ := h
  -- the first of the four that fails is the fault
  cases keyword with
  | error error =>
    rintro d rfl
    exact hrest d (.inl rfl)
  | ok keyword =>
    cases name with
    | error error =>
      rintro d rfl
      exact hrest d (.inr (.inl rfl))
    | ok name =>
      cases returns with
      | error error =>
        rintro d rfl
        exact hrest d (.inr (.inr (.inl rfl)))
      | ok returns =>
        cases brace with
        | error error =>
          rintro d rfl
          exact hrest d (.inr (.inr (.inr rfl)))
        | ok brace => exact Stmt.reports_parseBody rest

end Function

namespace CompilationUnit

/-- The faults of declarations are the one that the stream behind them is broken with. -/
theorem reports_parseGlobals (t : TokenStream) : Reports Stmt.Holds (parseGlobals t) := by
  cases hnext : t.nextKind?.bind declares? with
  | none =>
    rw [parseGlobals_nil (fun h => by simp [h, declares?] at hnext) (fun h => by simp [h, declares?] at hnext)]
    exact fun d hd => hd.elim
  | some constant =>
    cases ht : t with
    | done | broken => simp [ht, declares?] at hnext
    | more first rest =>
      have hfirst : declares? first.kind = some constant := by simpa [ht] using hnext
      have hle := (Stmt.parseDecl (more first rest)).length_le
      have hlen : t.length = rest.length + 1 := by rw [ht, length_more]
      have hdecl : Reports Stmt.Holds (Stmt.parseDecl (more first rest)).pair := by
        rw [Stmt.pair_parseDecl hfirst]
        exact Stmt.reports_parseDeclRest first.start constant rest
      rw [parseGlobals_cons hfirst]
      rintro d (hd | hd)
      · exact hdecl.behind (r := fun t => (parseGlobals t).2) parseGlobals_broken d hd
      · exact reports_parseGlobals (Stmt.parseDecl (more first rest)).pair.2 d hd
termination_by t.length
decreasing_by
  simp only [Parsed.pair, length_more] at hle ⊢
  omega

/-- The same for functions. -/
theorem reports_parseFunctions (t : TokenStream) :
    Reports (fun d (fs : List Function) => ∃ f ∈ fs, f.Holds d) (parseFunctions t) := by
  by_cases hnext : t.nextKind? = some .kwFn
  · cases ht : t with
    | done | broken => simp [ht] at hnext
    | more first rest =>
      have hfirst : first.kind = .kwFn := by simpa [ht] using hnext
      have hle := (Function.parse (more first rest)).length_le
      have hlen : t.length = rest.length + 1 := by rw [ht, length_more]
      rw [parseFunctions_cons hfirst]
      rintro d ⟨f, hf, hd⟩
      rcases List.mem_cons.1 hf with rfl | hf
      · exact (Function.reports_parse (more first rest)).behind (r := fun t => (parseFunctions t).2) parseFunctions_broken d hd
      · exact reports_parseFunctions (Function.parse (more first rest)).pair.2 d ⟨f, hf, hd⟩
  · rw [parseFunctions_nil hnext]
    exact fun d ⟨f, hf, _⟩ => nomatch hf
termination_by t.length
decreasing_by
  simp only [Parsed.pair, length_more] at hle ⊢
  omega

/-- The faults of a program text are the one that the stream is broken with in the end. -/
theorem reports_parse (t : TokenStream) : Reports Holds ((parse t).1, behindText t) := by
  have hfunctions := reports_parseFunctions (parseGlobals t).2
  rintro d (hd | hd | hd)
  · refine (reports_parseGlobals t).behind (r := behindFunctions) (fun error => ?_) d hd
    rw [behindFunctions, parseFunctions_nil (by simp)]
    rfl
  · exact hfunctions.behind (behindEnding_broken _) d hd
  · have hending : parseEnding (parseFunctions (parseGlobals t).2).1 (parseFunctions (parseGlobals t).2).2 = .error d := hd
    change behindEnding _ _ = _
    rw [behindEnding, hending]

end CompilationUnit

/-! ## What the checks find -/

/-- The cause is a token of a kind that could not come next. -/
def Cause.Unexpected : Cause → Prop
  | unexpected _ _ => True
  | _ => False

namespace Assembling

/-- Where the step stops at an unexpected token, the fault is one of these. -/
def Raises {α : Type} (P : Diagnostic → Prop) (m : Assembling α) : Prop :=
  ∀ a d, m.run a = .error d → d.cause.Unexpected → P d

section

variable {α β : Type} {P : Diagnostic → Prop} {m : Assembling α}

/-- One step after another stops where one of the two does. -/
theorem Raises.bind {f : α → Assembling β} (hm : m.Raises P) (hf : ∀ x, (f x).Raises P) : (m >>= f).Raises P := by
  intro a d h hd
  rw [StateT.run_bind] at h
  cases hrun : m.run a with
  | error e =>
    rw [hrun] at h
    obtain rfl : e = d := Except.error.inj h
    exact hm a e hrun hd
  | ok r =>
    rw [hrun] at h
    exact hf r.1 r.2 d h hd

/-- What is raised may be said less exactly. -/
theorem Raises.mono {Q : Diagnostic → Prop} (h : m.Raises P) (hPQ : ∀ d, P d → Q d) : m.Raises Q :=
  fun a d hrun hd => hPQ d (h a d hrun hd)

/-- A step that cannot fail. -/
theorem Raises.of_ok (h : ∀ a, ∃ r, m.run a = .ok r) : m.Raises P := by
  intro a d hrun
  obtain ⟨r, hr⟩ := h a
  exact nomatch hr.symm.trans hrun

/-- A fault that is one of these. -/
theorem raises_throw {d : Diagnostic} (h : P d) : (throw d : Assembling α).Raises P := by
  rintro a _ ⟨⟩ _
  exact h

/-- A fault of another kind than an unexpected token. -/
theorem raises_fail {cause : Cause} {pos : Position} (h : ¬ cause.Unexpected) : (fail cause pos : Assembling α).Raises P := by
  rintro a _ ⟨⟩ hd
  exact absurd hd h

theorem raises_pure (x : α) : (pure x : Assembling α).Raises P := .of_ok fun _ => ⟨_, rfl⟩

/-- An instruction can always be emitted. -/
theorem raises_emit (op : Operation) (operand : Option Nat) (pos : Position) : (emit op operand pos).Raises P :=
  .of_ok fun _ => ⟨_, rfl⟩

theorem raises_nextAddress : nextAddress.Raises P := .of_ok fun _ => ⟨_, rfl⟩

theorem raises_emitJump (op : Operation) (pos : Position) : (emitJump op pos).Raises P := .of_ok fun _ => ⟨_, rfl⟩

theorem raises_patch (address : Nat) : (patch address).Raises P := .of_ok fun _ => ⟨_, rfl⟩

theorem raises_modify (f : Assembly → Assembly) : (modify f : Assembling Unit).Raises P := .of_ok fun _ => ⟨_, rfl⟩

theorem raises_modifySymbols (f : SymbolTable → SymbolTable) : (modifySymbols f).Raises P := .of_ok fun _ => ⟨_, rfl⟩

theorem raises_swapBreaks (breaks : List Nat) : (swapBreaks breaks).Raises P := .of_ok fun _ => ⟨_, rfl⟩

/-- One step for each element of a list. -/
theorem raises_forM {ι : Type} {xs : List ι} {f : ι → Assembling Unit} (h : ∀ x ∈ xs, (f x).Raises P) :
    (xs.forM f : Assembling Unit).Raises P := by
  induction xs with
  | nil => exact raises_pure _
  | cons x xs ih => exact .bind (h x List.mem_cons_self) fun _ => ih fun y hy => h y (List.mem_cons_of_mem x hy)

/-- A name that is not declared is no unexpected token. -/
theorem raises_lookup (name : Ident) : (lookup name).Raises P := by
  intro a d h hd
  rw [lookup, run_get_bind, SymbolTable.lookup] at h
  cases hfind : a.symbols.find? name.name with
  | none =>
    rw [hfind] at h
    cases h
    exact hd.elim
  | some b =>
    rw [hfind] at h
    cases h

/-- A name that is declared twice is no unexpected token. -/
theorem raises_declare (name : Ident) (constant : Bool) (ty : Ty) : (declare name constant ty).Raises P := by
  intro a d h hd
  rw [declare, run_get_bind, SymbolTable.declare] at h
  cases hfind : a.symbols.current.find? name.name with
  | none =>
    rw [hfind] at h
    cases h
  | some b =>
    rw [hfind] at h
    cases h
    exact hd.elim

/-- The same for the name of a function. -/
theorem raises_declareFunction (name : Ident) (f : Signature) : (declareFunction name f).Raises P := by
  intro a d h hd
  rw [declareFunction, run_get_bind, SymbolTable.declareFunction] at h
  cases hfind : a.symbols.outermost.find? name.name with
  | none =>
    rw [hfind] at h
    cases h
  | some b =>
    rw [hfind] at h
    cases h
    exact hd.elim

/-- Neither is a name that cannot be written. -/
theorem raises_markWritten (name : Ident) : (markWritten name).Raises P := by
  intro a d h hd
  rw [markWritten, run_get_bind, SymbolTable.markWritten] at h
  cases hnested : SymbolTable.markFirst? name.name a.symbols.nested with
  | some nested =>
    rw [hnested] at h
    cases h
  | none =>
    cases hfind : a.symbols.outermost.find? name.name with
    | some b =>
      rw [hnested, hfind] at h
      cases h
    | none =>
      rw [hnested, hfind] at h
      cases h
      exact hd.elim

/-- A type that does not exist is no unexpected token. -/
theorem raises_resolveType (allowVoid : Bool) (ty : Ident) : (resolveType allowVoid ty).Raises P := by
  unfold resolveType
  split
  · split
    · exact raises_pure _
    · exact raises_fail id
  · exact raises_pure _
  · exact raises_fail id

/-- Types that do not agree are no unexpected token. -/
theorem raises_requireType (expected found : Ty) (pos : Position) : (requireType expected found pos).Raises P := by
  unfold requireType
  split
  · exact raises_pure _
  · exact raises_fail id

/-- A value that is missing is no unexpected token. -/
theorem raises_requireValue (expected found : Ty) (pos : Position) : (requireValue expected found pos).Raises P := by
  unfold requireValue
  split
  · exact raises_fail id
  · exact raises_pure _

end

end Assembling

open Assembling

namespace Expr

/-- The read of a variable checks the name and the write before it. -/
theorem raises_emitLoad {P : Diagnostic → Prop} (ctx : Context) (name : Ident) : (emitLoad ctx name).Raises P := by
  refine .bind (raises_lookup name) fun b => ?_
  cases b with
  | function f => exact raises_fail id
  | storage v =>
    dsimp only
    split
    · exact .bind (Assembling.raises_emit _ _ _) fun _ => raises_pure _
    · exact raises_fail id

/-- The target of an assignment is checked by name and kind. -/
theorem raises_assignable {P : Diagnostic → Prop} (name : Ident) : (assignable name).Raises P := by
  refine .bind (raises_lookup name) fun b => ?_
  cases b with
  | function f => exact raises_fail id
  | storage v =>
    dsimp only
    split
    · exact raises_fail id
    · exact raises_pure _

/-- A callee is checked by name and kind. -/
theorem raises_callable {P : Diagnostic → Prop} (name : Ident) : (callable name).Raises P := by
  refine .bind (raises_lookup name) fun b => ?_
  cases b with
  | function f => exact raises_pure _
  | storage v => exact raises_fail id

mutual

/-- Where an expression is refused for an unexpected token, the fault stands in it. -/
theorem raises_emit (ctx : Context) : ∀ e : Expr, (e.emit ctx).Raises fun d => e.Holds d
  | int pos value => by
    rw [emit]
    exact .bind (Assembling.raises_emit _ _ _) fun _ => raises_pure _
  | literal pos kind => by
    rw [emit]
    exact raises_fail id
  | var name => by
    rw [emit]
    exact raises_emitLoad ctx name
  | call callee args => by
    rw [emit]
    refine .bind (raises_callable callee) fun f => .bind (raises_emitArguments ctx f.params args) fun _ => ?_
    split
    · exact .bind (Assembling.raises_emit _ _ _) fun _ => raises_pure _
    · exact raises_fail id
  | assign target value => by
    rw [emit]
    exact .bind (raises_assignable target) fun v => .bind (raises_emit ctx value) fun ty =>
      .bind (raises_requireType _ _ _) fun _ => .bind (raises_markWritten target) fun _ =>
      .bind (Assembling.raises_emit _ _ _) fun _ => raises_pure _
  | paren _ inner => by
    rw [emit]
    exact raises_emit ctx inner
  | neg pos operand => by
    rw [emit]
    exact .bind (Assembling.raises_emit _ _ _) fun _ => .bind (raises_emit ctx operand) fun ty =>
      .bind (raises_requireValue _ _ _) fun _ => .bind (Assembling.raises_emit _ _ _) fun _ => raises_pure _
  | cast value pos target => by
    rw [emit]
    exact .bind (raises_emit ctx value) fun source => .bind (raises_resolveType _ _) fun ty =>
      .bind (raises_requireValue _ _ _) fun _ => raises_pure _
  | binary left op pos right => by
    rw [emit]
    exact .bind ((raises_emit ctx left).mono fun _ => .inl) fun leftTy =>
      .bind ((raises_emit ctx right).mono fun _ => .inr) fun rightTy => .bind (raises_requireValue _ _ _) fun _ =>
      .bind (raises_requireType _ _ _) fun _ => .bind (Assembling.raises_emit _ _ _) fun _ => raises_pure _
  | fault error => by
    rw [emit]
    exact raises_throw rfl
  | cut read error => by
    rw [emit]
    exact .bind ((raises_emit ctx read).mono fun _ => .inl) fun _ => raises_throw (.inr rfl)

/-- Where arguments are refused for an unexpected token, the fault stands in one of them. -/
theorem raises_emitArguments (ctx : Context) : ∀ (params : List Ty) (args : List Expr),
    (emitArguments ctx params args).Raises fun d => AnyHolds d args
  | _, [] => by
    rw [emitArguments]
    exact raises_pure _
  | [], arg :: args => by
    rw [emitArguments]
    exact .bind ((raises_emit ctx arg).mono fun _ => .inl) fun _ => (raises_emitArguments ctx [] args).mono fun _ => .inr
  | ty :: params, arg :: args => by
    rw [emitArguments]
    exact .bind ((raises_emit ctx arg).mono fun _ => .inl) fun _ => .bind (raises_requireType _ _ _) fun _ =>
      (raises_emitArguments ctx params args).mono fun _ => .inr

end

end Expr

namespace Stmt

/-- Where a condition is refused for an unexpected token, the fault stands in it. -/
theorem raises_emitCondition (ctx : Context) (condition : Expr) : (emitCondition ctx condition).Raises fun d => condition.Holds d :=
  .bind (Expr.raises_emit ctx condition) fun _ => raises_requireValue _ _ _

/-- The check of a return compares types. -/
theorem raises_checkReturn {P : Diagnostic → Prop} (ctx : Context) (found : Ty) (pos : Position) :
    (checkReturn ctx found pos).Raises P := by
  unfold checkReturn
  split
  · exact raises_requireType _ _ _
  · exact raises_pure _

/-- The check for a loop around finds one or none. -/
theorem raises_loopHead {P : Diagnostic → Prop} (ctx : Context) (keyword : Token.Kind) (pos : Position) :
    (loopHead ctx keyword pos).Raises P := by
  unfold loopHead
  split
  · exact raises_pure _
  · exact raises_fail id

/-- Where a statement is refused for an unexpected token, the fault stands in it. -/
theorem raises_emit (ctx : Context) (s : Stmt) : (s.emit ctx).Raises fun d => s.Holds d := by
  induction s generalizing ctx with
  | nil | empty =>
    rw [emit]
    exact raises_pure _
  | seq first rest ih₁ ih₂ =>
    rw [emit]
    exact .bind ((ih₁ ctx).mono fun _ => .inl) fun _ => (ih₂ ctx).mono fun _ => .inr
  | decl pos constant name ty init =>
    rw [emit]
    refine .bind (raises_resolveType _ _) fun found => .bind (raises_declare _ _ _) fun v => ?_
    cases init with
    | none => exact raises_pure _
    | some value =>
      exact .bind ((Expr.raises_emit ctx value).mono fun d hd => ⟨value, rfl, hd⟩) fun _ => .bind (raises_requireType _ _ _) fun _ =>
        .bind (Assembling.raises_emit _ _ _) fun _ => raises_markWritten _
  | expr value =>
    rw [emit]
    refine .bind (Expr.raises_emit ctx value) fun ty => ?_
    split
    · exact Assembling.raises_emit _ _ _
    · exact raises_pure _
  | block body ih =>
    rw [emit]
    exact .bind (raises_modifySymbols _) fun _ => .bind (ih ctx) fun _ => raises_modifySymbols _
  | ifThen pos condition body ih =>
    rw [emit]
    exact .bind ((raises_emitCondition ctx condition).mono fun _ => .inl) fun _ => .bind (raises_emitJump _ _) fun _ =>
      .bind ((ih ctx).mono fun _ => .inr) fun _ => raises_patch _
  | ifElse pos condition body elsePos other ih₁ ih₂ =>
    rw [emit]
    exact .bind ((raises_emitCondition ctx condition).mono fun _ => .inl) fun _ => .bind (raises_emitJump _ _) fun _ =>
      .bind ((ih₁ ctx).mono fun _ hd => .inr (.inl hd)) fun _ => .bind (raises_emitJump _ _) fun _ =>
      .bind (raises_patch _) fun _ => .bind ((ih₂ ctx).mono fun _ hd => .inr (.inr hd)) fun _ => raises_patch _
  | loop pos condition body ih =>
    rw [emit]
    exact .bind raises_nextAddress fun head => .bind ((raises_emitCondition ctx condition).mono fun _ => .inl) fun _ =>
      .bind (raises_emitJump _ _) fun _ => .bind (raises_swapBreaks _) fun _ =>
      .bind ((ih { ctx with loop := some head }).mono fun _ => .inr) fun _ => .bind (raises_swapBreaks _) fun _ =>
      .bind (Assembling.raises_emit _ _ _) fun _ => .bind (raises_patch _) fun _ => raises_forM fun _ _ => raises_patch _
  | leave pos =>
    rw [emit]
    exact .bind (raises_loopHead _ _ _) fun _ => .bind (raises_emitJump _ _) fun _ => raises_modify _
  | again pos =>
    rw [emit]
    exact .bind (raises_loopHead _ _ _) fun _ => Assembling.raises_emit _ _ _
  | ret pos stop =>
    rw [emit]
    exact .bind (raises_checkReturn _ _ _) fun _ => Assembling.raises_emit _ _ _
  | retValue pos value =>
    rw [emit]
    exact .bind (Expr.raises_emit ctx value) fun _ => .bind (raises_checkReturn _ _ _) fun _ => Assembling.raises_emit _ _ _
  | fault error =>
    rw [emit]
    exact raises_throw rfl

end Stmt

namespace Function

/-- The types of parameters are checked one by one. -/
theorem raises_paramTypes {P : Diagnostic → Prop} (params : List Param) : (paramTypes params).Raises P := by
  induction params with
  | nil => exact raises_pure _
  | cons p params ih => exact .bind (raises_resolveType _ _) fun _ => .bind ih fun _ => raises_pure _

/-- The names of parameters are declared one by one. -/
theorem raises_declareParams {P : Diagnostic → Prop} (params : List (Param × Ty)) : (declareParams params).Raises P := by
  induction params with
  | nil => exact raises_pure _
  | cons p params ih => exact .bind (raises_declare _ _ _) fun _ => .bind (raises_markWritten _) fun _ => ih

/-- Where a function is refused for an unexpected token, the fault stands in it. -/
theorem raises_emit (f : Function) : f.emit.Raises fun d => f.Holds d := by
  cases f with
  | defn pos name params returns body close =>
    exact .bind (raises_paramTypes params) fun types => .bind (raises_resolveType _ _) fun ty => .bind raises_nextAddress fun _ =>
      .bind (raises_declareFunction _ _) fun _ => .bind (raises_modifySymbols _) fun _ => .bind (raises_declareParams _) fun _ =>
      .bind (Stmt.raises_emit _ body) fun _ => .bind (Assembling.raises_emit _ _ _) fun _ => raises_modifySymbols _
  | fault pos params error => exact .bind (raises_paramTypes params) fun _ => raises_throw rfl

end Function

namespace CompilationUnit

/-- The call of `main` checks that it is there and has no parameters. -/
theorem raises_emitMainCall {P : Diagnostic → Prop} (pos : Position) : (emitMainCall pos).Raises P := by
  refine .bind (.of_ok fun _ => ⟨_, rfl⟩) fun a => ?_
  split
  · split
    · exact Assembling.raises_emit _ _ _
    · exact raises_fail id
  · exact raises_pure _

/-- Where a program is refused for an unexpected token, the fault stands in its tree. -/
theorem raises_emit (u : CompilationUnit) : u.emit.Raises fun d => u.Holds d := by
  refine .bind ((Stmt.raises_emit .outermost u.globals).mono fun _ => .inl) fun _ => .bind ?_ fun _ => ?_
  · have hfunctions : ∀ f ∈ u.functions, f.emit.Raises fun d => u.Holds d := fun f hf =>
      (Function.raises_emit f).mono fun _ hd => .inr (.inl ⟨f, hf, hd⟩)
    unfold emitFunctions
    split
    · exact raises_pure _
    · rename_i first rest hu
      rw [hu] at hfunctions
      exact .bind (raises_emitJump _ _) fun _ => .bind (raises_forM hfunctions) fun _ => raises_patch _
  · split
    · exact .bind (raises_emitMainCall _) fun _ => Assembling.raises_emit _ _ _
    · rename_i error herror
      exact raises_throw (.inr (.inr herror))

end CompilationUnit

end C0Stack
