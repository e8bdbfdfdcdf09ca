import C0Stack.Proofs.Recognition.Outcome

/-!
# How the readers of expressions end

On a stream that can be read, the reader of each layer of expressions takes a text of that layer or stops at the first token that
cannot come next, as `Grammar.Outcome` says it.
-/

namespace C0Stack

namespace Grammar

/-- The tokens derive something. -/
def Derived {α : Type} (G : List Token → α → Prop) (ts : List Token) : Prop := ∃ a, G ts a

/-- An integer literal. -/
theorem derived_number : Derived Primary [.sample .integer] := ⟨_, .int rfl⟩

/-- A number alone is a cast. -/
theorem derived_cast_number : Derived Cast [.sample .integer] := derived_number.imp fun _ h => .unary (.primary h)

/-- A number alone is an operand of every level. -/
theorem derived_operand_number (level : Precedence) : Derived (Operand level) [.sample .integer] := by
  obtain ⟨e, h⟩ := derived_cast_number
  refine ⟨e, ?_⟩
  cases level with
  | multiplicative => exact .multiplicative h
  | additive => exact .additive (.operand (.multiplicative h))
  | relational => exact .relational (.operand (.additive (.operand (.multiplicative h))))

/-- A number alone is an expression. -/
theorem derived_expression_number : Derived Expression [.sample .integer] :=
  (derived_operand_number .relational).imp fun _ h => .value (.operand h)

/-- What an operand may start with starts one. -/
theorem completable_operand {first : Token} (h : first.Proper) (hk : first.kind ∈ Expr.starts) :
    Completable (Derived Unary) [first] := by
  simp only [Expr.starts, List.mem_cons, List.not_mem_nil, or_false] at hk
  rcases hk with hk | hk | hk | hk
  · obtain ⟨n, hn⟩ := h.shaped.1 hk
    exact .of_mem ⟨_, .primary (.int hn)⟩
  · exact .of_mem ⟨_, .primary (.var hk)⟩
  · obtain ⟨e, he⟩ := derived_expression_number
    exact .of_kinds [.integer, .closeParen] (by simp) ⟨_, .primary (.paren hk he rfl)⟩
  · obtain ⟨e, he⟩ := derived_number
    exact .of_kinds [.integer] (by simp) ⟨_, .neg hk (.primary he)⟩

end Grammar

namespace Expr

open Grammar TokenStream

/-! ## What each reader leaves -/

section

variable {b : Bool} {level : Precedence} {first : Token} {rest t : TokenStream} {e : Expr}

/-- The loop of operators leaves a broken stream as it is. -/
theorem behind_parseOperators_broken (error : Diagnostic) : behind (parseOperators level e) (broken error) = broken error :=
  behind_eq (pair_parseOperators_stop (by simp))

/-- So does the loop of casts. -/
theorem behind_parseCasts_broken (error : Diagnostic) : behind (parseCasts e) (broken error) = broken error := by
  unfold behind
  rw [parseCasts]

/-- So does the reader of a unary expression. -/
theorem behind_parseUnary_broken (error : Diagnostic) : behind (parseUnary b) (broken error) = broken error := by
  unfold behind
  rw [parseUnary]

/-- What is left does not depend on the left operand. -/
theorem behind_parseOperators_eq (t : TokenStream) (e e' : Expr) :
    behind (parseOperators level e) t = behind (parseOperators level e') t := by
  by_cases hop : ∃ first rest op, t = more first rest ∧ BinaryOp.ofKindAt? level first.kind = some op
  · obtain ⟨first, rest, op, ht, hop⟩ := hop
    have hle := (parseOperand level true rest).length_le
    have hlen : t.length = rest.length + 1 := by rw [ht, length_more]
    have h : ∀ e, behind (parseOperators level e) t =
        behind (parseOperators level (.binary e op first.start (parseOperand level true rest).pair.1))
          (parseOperand level true rest).rest := by
      intro e
      rw [ht]
      exact behind_congr (pair_parseOperators_more hop)
    rw [h e, h e']
    exact behind_parseOperators_eq (parseOperand level true rest).rest _ _
  · have h : ∀ e, behind (parseOperators level e) t = t := by
      intro e
      refine behind_eq (pair_parseOperators_stop fun k hk => ?_)
      cases t with
      | broken => simp at hk
      | done pos =>
        obtain rfl : Token.Kind.endOfFile = k := Option.some.inj hk
        cases level <;> rfl
      | more first rest =>
        obtain rfl : first.kind = k := Option.some.inj hk
        exact Option.eq_none_iff_forall_ne_some.2 fun op hop' => hop ⟨first, rest, op, rfl, hop'⟩
    rw [h e, h e']
termination_by t.length

/-- Behind an operator of its level the loop goes on behind the next operand. -/
theorem behind_parseOperators_more {op : BinaryOp} (h : BinaryOp.ofKindAt? level first.kind = some op) (e : Expr) :
    behind (parseOperators level e) (more first rest) =
      behind (parseOperators level e) (behind (parseOperand level true) rest) :=
  (behind_congr (pair_parseOperators_more h)).trans (behind_parseOperators_eq _ _ e)

/-- What is left behind a level is what the loop leaves behind the first operand, whatever that was. -/
theorem behind_parseLevel (e : Expr) :
    behind (parseLevel level b) t = behind (parseOperators level e) (behind (parseOperand level b) t) :=
  (behind_congr pair_parseLevel).trans (behind_parseOperators_eq _ _ e)

/-- What is left does not depend on the expression that is cast. -/
theorem behind_parseCasts_eq (t : TokenStream) (e e' : Expr) : behind (parseCasts e) t = behind (parseCasts e') t := by
  cases t with
  | broken error => rw [behind_parseCasts_broken, behind_parseCasts_broken]
  | done pos =>
    unfold behind
    rw [parseCasts, parseCasts]
  | more first rest =>
    by_cases hfirst : first.kind = .kwAs
    · obtain ⟨ty, rest', rfl, hty, -⟩ | ⟨error, herror⟩ := take_cases .name (by simp) rest
      · have h : ∀ e, behind (parseCasts e) (more first (more ty rest')) =
            behind (parseCasts (.cast e first.start ty.ident)) rest' :=
          fun e => behind_congr (pair_parseCasts_as hfirst hty)
        rw [h e, h e']
        exact behind_parseCasts_eq rest' _ _
      · have h : ∀ e, behind (parseCasts e) (more first rest) = broken error :=
          fun e => behind_eq (pair_parseCasts_cut hfirst herror)
        rw [h e, h e']
    · have h : ∀ e, behind (parseCasts e) (more first rest) = more first rest :=
        fun e => behind_eq (pair_parseCasts_stop (nextKind?_more first rest) hfirst)
      rw [h e, h e']
termination_by t.length

/-- Behind an `as` the loop of casts goes on behind a name. -/
theorem behind_parseCasts_as (h : first.kind = .kwAs) (e : Expr) :
    behind (parseCasts e) (more first rest) = behind (parseCasts e) (behind (take .name) rest) := by
  obtain ⟨ty, rest', rfl, hty, -⟩ | ⟨error, herror⟩ := take_cases .name (by simp) rest
  · rw [behind_take hty]
    exact (behind_congr (pair_parseCasts_as h hty)).trans (behind_parseCasts_eq _ _ e)
  · have hbehind : behind (take .name) rest = broken error := behind_eq herror
    rw [hbehind, behind_parseCasts_broken]
    exact behind_eq (pair_parseCasts_cut h herror)

/-- What is left behind a cast is what the loop leaves behind the unary expression, whatever that was. -/
theorem behind_parseCast (e : Expr) : behind (parseCast b) t = behind (parseCasts e) (behind (parseUnary b) t) :=
  (behind_congr pair_parseCast).trans (behind_parseCasts_eq _ _ e)

/-- Where the stream breaks in the first part of an operand, it is broken behind the operand. -/
theorem behind_parseOperand_of_broken {error : Diagnostic} (h : behind (parseUnary b) t = broken error) :
    behind (parseOperand level b) t = broken error := by
  have hmul : behind (parseOperand .multiplicative b) t = broken error := by
    refine (behind_congr pair_parseOperand_multiplicative).trans ((behind_parseCast default).trans ?_)
    rw [h, behind_parseCasts_broken]
  have hadd : behind (parseOperand .additive b) t = broken error := by
    refine (behind_congr pair_parseOperand_additive).trans ((behind_parseLevel default).trans ?_)
    rw [hmul, behind_parseOperators_broken]
  cases level with
  | multiplicative => exact hmul
  | additive => exact hadd
  | relational =>
    refine (behind_congr pair_parseOperand_relational).trans ((behind_parseLevel default).trans ?_)
    rw [hadd, behind_parseOperators_broken]

/-- Where the stream breaks in the first part of an expression, it is broken behind the expression. -/
theorem behind_parse_of_broken {error : Diagnostic} (h : behind (parseUnary false) t = broken error) :
    behind parse t = broken error := by
  refine (behind_congr pair_parse).trans ((behind_parseLevel default).trans ?_)
  rw [behind_parseOperand_of_broken h, behind_parseOperators_broken]

/-- No expression is read from a broken stream. -/
theorem behind_parse_broken (error : Diagnostic) : behind parse (broken error) = broken error :=
  behind_parse_of_broken (behind_parseUnary_broken error)

/-- The value of an assignment is all that is read behind its sign. -/
theorem behind_parse_assign {x sign : Token} (hx : x.Proper) (hname : x.kind = .name) (hsign : sign.kind = .assign) :
    behind parse (more x (more sign rest)) = behind parse rest := by
  have hunary : (parseUnary false (more x (more sign rest))).pair = (.assign x.ident (parse rest).pair.1, (parse rest).pair.2) := by
    rw [pair_parseUnary_primary (by simp [hname]), pair_parsePrimary_name hname (hx.shaped.value_ne (by simp [hname])),
      pair_parseName_assign hsign]
  rcases reads_parse rest with ⟨_, -, -, k, hk, hend⟩ | ⟨-, error, herror⟩
  · have hend : (assign x.ident (parse rest).pair.1).Ends k := ⟨hend.name, hend.cast, hend.ends.operator⟩
    exact behind_eq (hend.pair_parse hk hunary)
  · exact (behind_parse_of_broken ((behind_eq hunary).trans herror)).trans herror.symm

/-- Behind a minus sign its operand is read. -/
theorem behind_parseUnary_minus (h : first.kind = .minus) :
    behind (parseUnary b) (more first rest) = behind (parseUnary true) rest :=
  behind_eq (pair_parseUnary_minus h)

/-- A literal is taken alone. -/
theorem behind_parseUnary_literal (hfirst : first.Proper) (h : first.kind ∈ [.integer, .double, .string]) :
    behind (parseUnary b) (more first rest) = rest := by
  have hminus : first.kind ≠ .minus := by
    intro hminus
    simp [hminus] at h
  have hprimary : ∃ e, (parsePrimary b first rest).pair = (e, rest) := by
    simp only [List.mem_cons, List.not_mem_nil, or_false] at h
    rcases h with h | h | h
    · obtain ⟨n, hn⟩ := hfirst.shaped.1 h
      exact ⟨_, pair_parsePrimary_integer hn⟩
    · exact ⟨_, pair_parsePrimary_double h (hfirst.shaped.value_ne (by simp [h]))⟩
    · exact ⟨_, pair_parsePrimary_string h (hfirst.shaped.value_ne (by simp [h]))⟩
  obtain ⟨e, he⟩ := hprimary
  exact behind_eq ((pair_parseUnary_primary hminus).trans he)

/-- A name is taken, and then what makes a call or an assignment of it. -/
theorem pair_parseUnary_name (hfirst : first.Proper) (h : first.kind = .name) :
    (parseUnary b (more first rest)).pair = (parseName b first.ident rest).pair := by
  rw [pair_parseUnary_primary (by simp [h]), pair_parsePrimary_name h (hfirst.shaped.value_ne (by simp [h]))]

/-- A variable is taken alone. -/
theorem behind_parseUnary_var (hfirst : first.Proper) (h : first.kind = .name) {k : Token.Kind} (hk : rest.nextKind? = some k)
    (hparen : k ≠ .openParen) (hassign : k ≠ .assign) : behind (parseUnary b) (more first rest) = rest :=
  behind_eq ((pair_parseUnary_name hfirst h).trans (pair_parseName_var hk ⟨hparen, hassign⟩))

/-- A call is taken up to the end of its arguments. -/
theorem behind_parseUnary_call {openParen : Token} (hfirst : first.Proper) (h : first.kind = .name)
    (hopen : openParen.kind = .openParen) :
    behind (parseUnary b) (more first (more openParen rest)) = behind parseArguments rest :=
  behind_eq ((pair_parseUnary_name hfirst h).trans (pair_parseName_call hopen))

/-- An assignment as an operand breaks the stream. -/
theorem behind_parseUnary_misplaced {sign : Token} (hfirst : first.Proper) (h : first.kind = .name) (hsign : sign.kind = .assign) :
    behind (parseUnary true) (more first (more sign rest)) = broken ⟨.assignmentAsOperand first.ident.name, first.ident.pos⟩ := by
  have hname : (parseName true first.ident (more sign rest)).pair =
      (.fault ⟨.assignmentAsOperand first.ident.name, first.ident.pos⟩,
        broken ⟨.assignmentAsOperand first.ident.name, first.ident.pos⟩) := by
    rw [parseName]
    split <;> simp_all [Parsed.pair]
  exact behind_eq ((pair_parseUnary_name hfirst h).trans hname)

/-- Parentheses are taken up to the closing one. -/
theorem behind_parseUnary_paren (hfirst : first.Proper) (h : first.kind = .openParen) :
    behind (parseUnary b) (more first rest) = behind (take .closeParen) (behind parse rest) := by
  have hv := hfirst.shaped.value_ne (by simp [h])
  obtain ⟨close, rest', hclose, hkind, htake⟩ | ⟨error, herror⟩ := take_cases .closeParen (by simp) (parse rest).pair.2
  · refine (behind_eq ((pair_parseUnary_primary (by simp [h])).trans (pair_parsePrimary_openParen h hv htake))).trans ?_
    exact (behind_eq htake).symm
  · refine (behind_eq ((pair_parseUnary_primary (by simp [h])).trans (pair_parsePrimary_cut h hv herror))).trans ?_
    exact (behind_eq herror).symm

/-- No expression starts with another token. -/
theorem behind_parseUnary_refuse (ht : t.Readable) (h : ∀ k ∈ Grammar.starts, t.nextKind? ≠ some k) :
    behind (parseUnary b) t = broken (t.unexpected starts) := by
  cases t with
  | broken error => exact ht.elim
  | done pos =>
    unfold behind
    rw [parseUnary]
    rfl
  | more first rest =>
    have hne : ∀ k ∈ Grammar.starts, first.kind ≠ k := fun k hk hfirst => h k hk (by rw [nextKind?_more, hfirst])
    have hv := ht.1.shaped.value_ne (hne _ (by simp [Grammar.starts]))
    have hprimary : (parsePrimary b first rest).pair =
        (.fault ⟨.unexpected starts first.kind, first.start⟩, broken ⟨.unexpected starts first.kind, first.start⟩) := by
      rw [parsePrimary]
      split <;> simp_all [Parsed.pair, Grammar.starts]
    exact behind_eq ((pair_parseUnary_primary (hne _ (by simp [Grammar.starts]))).trans hprimary)

/-- The closing parenthesis of a call without arguments is taken alone. -/
theorem behind_parseArguments_none (h : first.kind = .closeParen) : behind parseArguments (more first rest) = rest :=
  behind_eq (pair_parseArguments_none h)

/-- Otherwise the list of arguments is taken. -/
theorem behind_parseArguments_some (h : t.nextKind? ≠ some .closeParen) :
    behind parseArguments t = behind parseArgumentList t :=
  behind_congr (pair_parseArguments_some h)

/-- What is left behind the arguments, given what is left behind the first. -/
def behindArgument (t : TokenStream) : TokenStream :=
  if t.nextKind? = some .comma then behind parseArgumentList t.tail else behind (take .closeParen) t

/-- Behind an argument come a comma and the others, or the closing parenthesis. -/
theorem behind_parseArgumentList : behind parseArgumentList t = behindArgument (behind parse t) := by
  unfold behindArgument
  by_cases hcomma : (behind parse t).nextKind? = some .comma
  · rw [if_pos hcomma]
    cases hrest : behind parse t with
    | done | broken => simp [hrest] at hcomma
    | more comma rest =>
      have hkind : comma.kind = .comma := by simpa [hrest] using hcomma
      exact behind_eq (pair_parseArgumentList_cons hrest hkind)
  · rw [if_neg hcomma]
    obtain ⟨close, rest', hclose, hkind, htake⟩ | ⟨error, herror⟩ := take_cases .closeParen (by simp) (parse t).pair.2
    · exact (behind_eq (pair_parseArgumentList_one hcomma htake)).trans (behind_eq htake).symm
    · exact (behind_eq (pair_parseArgumentList_cut hcomma herror)).trans (behind_eq herror).symm

end

/-! ## How each reader ends -/

/-- The stream starts with a name and an assignment sign. -/
def StartsAssignment (t : TokenStream) : Prop := ∃ x sign rest, t = more x (more sign rest) ∧ x.kind = .name ∧ sign.kind = .assign

/-- The loop of casts, behind what has been read as a cast so far. -/
theorem outcome_parseCasts (e : Expr) (t : TokenStream) (ht : t.Readable) {ts : List Token} (hts : Derived Cast ts) :
    Outcome (fun us => Derived Cast (ts ++ us)) (behind (parseCasts e)) t := by
  by_cases has : t.nextKind? = some .kwAs
  · obtain ⟨word, rest, rfl, hword⟩ := ht.exists_more has (by simp)
    have hcast : ∀ ty : Token, ty.kind = .name → Derived Cast (ts ++ [word, ty]) := fun ty hty =>
      hts.elim fun _ h => ⟨_, h.cast hword hty⟩
    have h : Outcome (fun us => Derived Cast (ts ++ word :: us)) (fun t => behind (parseCasts e) (behind (take .name) t)) rest := by
      refine .token ht.2 (by simp) (fun ty _ hty => .of_mem (hcast ty hty)) behind_parseCasts_broken ?_
      intro ty rest' hrest hty hreadable
      have hlen : rest.length = rest'.length + 1 := by rw [hrest, length_more]
      refine (outcome_parseCasts e rest' hreadable (hcast ty hty)).mono fun us hus => ?_
      simpa using hus
    exact h.cons ht fun word' rest' _ hkind _ => behind_parseCasts_as (hkind.trans hword) e
  · refine .pass (by rwa [List.append_nil]) fun t' ht' => ?_
    obtain ⟨k, hk⟩ := ht'.readable.exists_nextKind?
    exact behind_eq (pair_parseCasts_stop hk fun hk' => has (by rw [← ht'.nextKind?, hk, hk']))
termination_by t.length
decreasing_by
  subst_vars
  simp only [length_more]
  omega

mutual

/-- An expression is read, or the reader stops at the first token that cannot come next. -/
theorem outcome_parse (t : TokenStream) (ht : t.Readable) : Outcome (Derived Expression) (behind parse) t := by
  by_cases hassign : StartsAssignment t
  · obtain ⟨x, sign, rest, rfl, hx, hsign⟩ := hassign
    have h : Outcome (fun us => Derived Expression (x :: us)) (fun t => behind parse t.tail) (more sign rest) := by
      refine ((outcome_parse rest ht.2.2).mono ?_).cons ht.2 fun _ _ _ _ _ => rfl
      rintro us ⟨e, he⟩
      exact ⟨_, .assign hx hsign he⟩
    refine h.cons ht fun x' rest' hx' hkind hrest' => ?_
    obtain ⟨sign', rest'', rfl, hsign'⟩ := hrest'.exists_more ht.2.1
    exact behind_parse_assign hx' (hkind.trans hx) (hsign'.trans hsign)
  · have h := outcome_parseLevel .relational false t ht fun _ => hassign
    exact (h.mono fun ts => .imp fun _ => .value).congr ht fun t' _ => behind_congr pair_parse
termination_by 16 * t.length + 9
decreasing_by
  · subst_vars
    simp only [length_more]
    omega
  · dsimp only [rank]
    omega

/-- A level is read, or the reader stops at the first token that cannot come next, unless an assignment comes first. -/
theorem outcome_parseLevel (level : Precedence) (b : Bool) (t : TokenStream) (ht : t.Readable)
    (hb : b = false → ¬ StartsAssignment t) : Outcome (Derived (Level level)) (behind (parseLevel level b)) t := by
  have h : Outcome (Derived (Level level)) (fun t => behind (parseOperators level default) (behind (parseOperand level b) t)) t := by
    refine (outcome_parseOperand level b t ht hb).andThen ht (fun ts hts => .of_mem (hts.imp fun _ => .operand))
      behind_parseOperators_broken fun ts rest hrest hreadable hts => ?_
    have hle : rest.length ≤ t.length - 1 := hrest ▸ (parseOperand level b t).length_le
    exact outcome_parseOperators level default rest hreadable (hts.imp fun _ => .operand)
  exact h.congr ht fun t' _ => behind_parseLevel default
termination_by 16 * t.length + rank level
decreasing_by all_goals cases level <;> simp [rank] <;> omega

/-- The loop of operators of one level, behind what has been read so far. -/
theorem outcome_parseOperators (level : Precedence) (e : Expr) (t : TokenStream) (ht : t.Readable) {ts : List Token}
    (hts : Derived (Level level) ts) :
    Outcome (fun us => Derived (Level level) (ts ++ us)) (behind (parseOperators level e)) t := by
  obtain ⟨k, hk⟩ := ht.exists_nextKind?
  cases hop : BinaryOp.ofKindAt? level k with
  | none =>
    refine .pass (by rwa [List.append_nil]) fun t' ht' => behind_eq (pair_parseOperators_stop fun k' hk' => ?_)
    obtain rfl : k = k' := Option.some.inj ((hk.symm.trans ht'.nextKind?.symm).trans hk')
    exact hop
  | some op =>
    have hne : k ≠ .endOfFile := by
      rintro rfl
      cases level <;> simp [BinaryOp.ofKindAt?, BinaryOp.ofKind?] at hop
    obtain ⟨sign, rest, rfl, rfl⟩ := ht.exists_more hk hne
    have hbinary : ∀ us, Derived (Operand level) us → Derived (Level level) (ts ++ sign :: us) := by
      rintro us ⟨right, hright⟩
      exact hts.elim fun _ h => ⟨_, h.binary hop hright⟩
    have h : Outcome (fun us => Derived (Level level) (ts ++ sign :: us))
        (fun t => behind (parseOperators level e) (behind (parseOperand level true) t)) rest := by
      refine (outcome_parseOperand level true rest ht.2 nofun).andThen ht.2 (fun us hus => .of_mem (hbinary us hus))
        behind_parseOperators_broken fun us rest' hrest hreadable hus => ?_
      have hle : rest'.length ≤ rest.length - 1 := hrest ▸ (parseOperand level true rest).length_le
      refine (outcome_parseOperators level e rest' hreadable (hbinary us hus)).mono fun vs hvs => ?_
      simpa using hvs
    exact h.cons ht fun sign' rest' _ hkind _ => behind_parseOperators_more (hkind ▸ hop) e
termination_by 16 * t.length
decreasing_by
  all_goals subst_vars
  all_goals simp only [length_more]
  · cases level <;> simp only [rank] <;> omega
  · omega

/-- The same for an operand of a level. -/
theorem outcome_parseOperand (level : Precedence) (b : Bool) (t : TokenStream) (ht : t.Readable)
    (hb : b = false → ¬ StartsAssignment t) : Outcome (Derived (Operand level)) (behind (parseOperand level b)) t := by
  cases level with
  | relational =>
    have h := outcome_parseLevel .additive b t ht hb
    exact (h.mono fun ts => .imp fun _ => .relational).congr ht fun t' _ => behind_congr pair_parseOperand_relational
  | additive =>
    have h := outcome_parseLevel .multiplicative b t ht hb
    exact (h.mono fun ts => .imp fun _ => .additive).congr ht fun t' _ => behind_congr pair_parseOperand_additive
  | multiplicative =>
    have h := outcome_parseCast b t ht hb
    exact (h.mono fun ts => .imp fun _ => .multiplicative).congr ht fun t' _ => behind_congr pair_parseOperand_multiplicative
termination_by 16 * t.length + rank level - 1
decreasing_by all_goals (dsimp only [rank]; omega)

/-- The same for a cast. -/
theorem outcome_parseCast (b : Bool) (t : TokenStream) (ht : t.Readable) (hb : b = false → ¬ StartsAssignment t) :
    Outcome (Derived Cast) (behind (parseCast b)) t := by
  have h : Outcome (Derived Cast) (fun t => behind (parseCasts default) (behind (parseUnary b) t)) t := by
    refine (outcome_parseUnary b t ht hb).andThen ht (fun ts hts => .of_mem (hts.imp fun _ => .unary)) behind_parseCasts_broken
      fun ts rest _ hreadable hts => ?_
    exact outcome_parseCasts default rest hreadable (hts.imp fun _ => .unary)
  exact h.congr ht fun t' _ => behind_parseCast default
termination_by 16 * t.length + 2

/-- The same for a unary expression. -/
theorem outcome_parseUnary (b : Bool) (t : TokenStream) (ht : t.Readable) (hb : b = false → ¬ StartsAssignment t) :
    Outcome (Derived Unary) (behind (parseUnary b)) t := by
  by_cases hminus : t.nextKind? = some .minus
  · obtain ⟨sign, rest, rfl, hsign⟩ := ht.exists_more hminus (by simp)
    refine ((outcome_parseUnary true rest ht.2 nofun).mono ?_).cons ht fun sign' rest' _ hkind _ =>
      behind_parseUnary_minus (hkind.trans hsign)
    rintro us ⟨e, he⟩
    exact ⟨_, .neg hsign he⟩
  by_cases hname : t.nextKind? = some .name
  · obtain ⟨x, rest, rfl, hx⟩ := ht.exists_more hname (by simp)
    exact outcome_parseUnary_name b rest hx ht hb
  by_cases hparen : t.nextKind? = some .openParen
  · obtain ⟨openParen, rest, rfl, hopen⟩ := ht.exists_more hparen (by simp)
    have hclosed : ∀ us, Derived Expression us → ∀ close : Token, close.kind = .closeParen →
        Derived Unary (openParen :: (us ++ [close])) := by
      rintro us ⟨e, he⟩ close hclose
      exact ⟨_, .primary (.paren hopen he hclose)⟩
    have h : Outcome (fun us => Derived Unary (openParen :: us)) (fun t => behind (take .closeParen) (behind parse t)) rest := by
      refine (outcome_parse rest ht.2).andThen ht.2 (fun us hus => .of_kinds [.closeParen] (by simp) (hclosed us hus _ rfl))
        (behind_take_broken _) fun us rest' _ hreadable hus => ?_
      exact .take hreadable (by simp) fun close _ hclose => hclosed us hus close hclose
    exact h.cons ht fun first' rest' hfirst' hkind _ => behind_parseUnary_paren hfirst' (hkind.trans hopen)
  by_cases hliteral : ∃ k ∈ [Token.Kind.integer, .double, .string], t.nextKind? = some k
  · obtain ⟨k, hmem, hk⟩ := hliteral
    obtain ⟨first, rest, rfl, rfl⟩ := ht.exists_more hk (by rintro rfl; simp at hmem)
    have hfirst : Derived Unary [first] := by
      simp only [List.mem_cons, List.not_mem_nil, or_false] at hmem
      rcases hmem with hmem | hmem | hmem
      · obtain ⟨n, hn⟩ := ht.1.shaped.1 hmem
        exact ⟨_, .primary (.int hn)⟩
      · exact ⟨_, .primary (.double hmem)⟩
      · exact ⟨_, .primary (.string hmem)⟩
    refine (Outcome.pass (r := id) hfirst fun _ _ => rfl).cons ht fun first' rest' hfirst' hkind _ => ?_
    exact behind_parseUnary_literal hfirst' (hkind ▸ hmem)
  · refine .refuse starts ⟨by simp [starts], by simp [starts]⟩
      (fun t' ht' => behind_parseUnary_refuse ht'.readable fun k hk => ?_) fun next hnext hk => ?_
    · rw [ht'.nextKind?]
      simp only [Grammar.starts, List.mem_cons, List.not_mem_nil, or_false] at hk
      rcases hk with rfl | rfl | rfl | rfl | rfl | rfl
      · exact fun h => hliteral ⟨_, by simp, h⟩
      · exact fun h => hliteral ⟨_, by simp, h⟩
      · exact fun h => hliteral ⟨_, by simp, h⟩
      · exact hname
      · exact hparen
      · exact hminus
    · exact completable_operand hnext hk
termination_by 16 * t.length + 1
decreasing_by
  all_goals subst_vars
  all_goals simp only [length_more]
  all_goals omega

/-- What starts with a name: a call before an opening parenthesis, and the value of a variable before anything else but an
assignment sign. -/
theorem outcome_parseUnary_name (b : Bool) {x : Token} (rest : TokenStream) (hx : x.kind = .name) (ht : (more x rest).Readable)
    (hb : b = false → ¬ StartsAssignment (more x rest)) : Outcome (Derived Unary) (behind (parseUnary b)) (more x rest) := by
  by_cases hcall : rest.nextKind? = some .openParen
  · obtain ⟨openParen, rest, rfl, hopen⟩ := ht.2.exists_more hcall (by simp)
    have h : Outcome (fun us => Derived Unary (x :: us)) (fun t => behind parseArguments t.tail) (more openParen rest) := by
      refine ((outcome_parseArguments rest ht.2.2).mono ?_).cons ht.2 fun _ _ _ _ _ => rfl
      rintro us ⟨args, hargs⟩
      exact ⟨_, .primary (.call hx hopen hargs)⟩
    refine h.cons ht fun x' rest' hx' hkind hrest' => ?_
    obtain ⟨openParen', rest'', rfl, hopen'⟩ := hrest'.exists_more ht.2.1
    exact behind_parseUnary_call hx' (hkind.trans hx) (hopen'.trans hopen)
  by_cases hassign : rest.nextKind? = some .assign
  · obtain ⟨sign, rest, rfl, hsign⟩ := ht.2.exists_more hassign (by simp)
    cases b with
    | true => exact .misplaced (behind_parseUnary_misplaced ht.1 hx hsign)
    | false => exact absurd ⟨x, sign, rest, rfl, hx, hsign⟩ (hb rfl)
  · obtain ⟨k, hk⟩ := ht.2.exists_nextKind?
    have hvar : Derived Unary [x] := ⟨_, .primary (.var hx)⟩
    refine (Outcome.pass (r := id) hvar fun _ _ => rfl).cons ht fun x' rest' hx' hkind hrest' => ?_
    have hk' : rest'.nextKind? = some k := hrest'.nextKind?.trans hk
    exact behind_parseUnary_var hx' (hkind.trans hx) hk' (fun h => hcall (h ▸ hk)) (fun h => hassign (h ▸ hk))
termination_by 16 * rest.length + 15
decreasing_by
  subst_vars
  simp only [length_more]
  omega

/-- The arguments of a call are read, or the reader stops at the first token that cannot come next. -/
theorem outcome_parseArguments (t : TokenStream) (ht : t.Readable) : Outcome (Derived Arguments) (behind parseArguments) t := by
  by_cases hclose : t.nextKind? = some .closeParen
  · obtain ⟨close, rest, rfl, hkind⟩ := ht.exists_more hclose (by simp)
    have hnone : Derived Arguments [close] := ⟨_, .none hkind⟩
    refine (Outcome.pass (r := id) hnone fun _ _ => rfl).cons ht fun close' rest' _ hkind' _ => ?_
    exact behind_parseArguments_none (hkind'.trans hkind)
  · have h := outcome_parseArgumentList t ht
    refine (h.mono fun ts => .imp fun _ => .some).congr ht fun t' ht' => ?_
    exact behind_parseArguments_some (by rwa [ht'.nextKind?])
termination_by 16 * t.length + 11

/-- So is a list of at least one argument. -/
theorem outcome_parseArgumentList (t : TokenStream) (ht : t.Readable) :
    Outcome (Derived ArgumentList) (behind parseArgumentList) t := by
  have hone : ∀ ts, Derived Expression ts → ∀ close : Token, close.kind = .closeParen → Derived ArgumentList (ts ++ [close]) := by
    rintro ts ⟨e, he⟩ close hclose
    exact ⟨_, .one he hclose⟩
  have h : Outcome (Derived ArgumentList) (fun t => behindArgument (behind parse t)) t := by
    refine (outcome_parse t ht).andThen ht (fun ts hts => .of_kinds [.closeParen] (by simp) (hone ts hts _ rfl))
      (fun error => rfl) fun ts rest hrest hreadable hts => ?_
    by_cases hcomma : rest.nextKind? = some .comma
    · obtain ⟨comma, rest', rfl, hkind⟩ := hreadable.exists_more hcomma (by simp)
      have hle : (more comma rest').length ≤ t.length - 1 := hrest ▸ (parse t).length_le
      refine ((outcome_parseArgumentList rest' hreadable.2).mono ?_).cons hreadable fun comma' rest'' _ hkind' _ => ?_
      · rintro us ⟨args, hargs⟩
        obtain ⟨e, he⟩ := hts
        exact ⟨_, .cons he hkind hargs⟩
      · exact if_pos (by rw [nextKind?_more, hkind', hkind])
    · refine Outcome.congr (.take hreadable (by simp) fun close _ hclose => hone ts hts close hclose) hreadable fun t' ht' => ?_
      exact if_neg (by rwa [ht'.nextKind?])
  exact h.congr ht fun t' _ => behind_parseArgumentList
termination_by 16 * t.length + 10
decreasing_by
  · omega
  · simp only [length_more] at hle
    omega

end

end Expr

end C0Stack
