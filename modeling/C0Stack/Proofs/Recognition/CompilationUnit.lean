import C0Stack.Proofs.Grammar.CompilationUnit
import C0Stack.Proofs.Recognition.Stmt

/-!
# How the readers of whole texts end

The readers of parameters, functions and declarations end as `Grammar.Outcome` says it. A whole text is of the language of its mode,
or it is refused at the first token that cannot come next (`Grammar.Verdict`). The end of the text counts as a token here: it can be
the one that cannot come next, and it can be one of those that could.
-/

namespace C0Stack

namespace Grammar

open TokenStream

/-- The tokens derive a whole program. -/
def DerivedProgram (ts : List Token) : Prop := ∃ pos, Derived (fun ts => ProgramText ts pos) ts

/-- Declarations with functions behind them are a program. -/
theorem derivedProgram_append {ts us : List Token} (hts : Derived Declarations ts) (hus : Derived Functions us) :
    DerivedProgram (ts ++ us) := by
  obtain ⟨globals, hglobals⟩ := hts
  obtain ⟨functions, hfunctions⟩ := hus
  exact ⟨.start, _, .mk hglobals hfunctions⟩

/-- Declarations with one more behind them are declarations. -/
theorem Declarations.concat {ts us : List Token} (h : Derived Declarations ts) (hus : Derived Declaration us) :
    Derived Declarations (ts ++ us) := by
  obtain ⟨ss, hss⟩ := h
  obtain ⟨s, hs⟩ := hus
  induction hss with
  | nil => exact ⟨_, by simpa using Declarations.cons hs .nil⟩
  | cons hfirst _ ih =>
    obtain ⟨ss', hss'⟩ := ih
    exact ⟨_, by simpa using Declarations.cons hfirst hss'⟩

/-- Functions with one more behind them are functions. -/
theorem Functions.concat {ts us : List Token} (h : Derived Functions ts) (hus : Derived FunctionDefinition us) :
    Derived Functions (ts ++ us) := by
  obtain ⟨fs, hfs⟩ := h
  obtain ⟨f, hf⟩ := hus
  induction hfs with
  | nil => exact ⟨_, by simpa using Functions.cons hf .nil⟩
  | cons hfirst _ ih =>
    obtain ⟨fs', hfs'⟩ := ih
    exact ⟨_, by simpa using Functions.cons hfirst hfs'⟩

/-- A number makes a declaration of any first word. -/
theorem derived_declaration_number {word : Token} {constant : Bool} (h : declares? word.kind = some constant) :
    Derived Declaration
      [word, .sample .name, .sample .colon, .sample .name, .sample .assign, .sample .integer, .sample .semicolon] :=
  (initializer_number rfl).derived h rfl rfl rfl rfl

/-- How the reading of a whole text ends. -/
inductive Verdict (L : List Token → Prop) (r : TokenStream → TokenStream) (t : TokenStream) : Prop
  /-- All of it is of the language. -/
  | accepts (ts : List Token) (pos : Position) : t = (done pos).prepend ts → L ts → r t = done pos → Verdict L r t
  /-- It is refused at a token that cannot come next, with kinds that could. -/
  | refuses (ts : List Token) (rest : TokenStream) (expected : List Token.Kind) : t = rest.prepend ts → Completable L ts →
      (∀ ts' rest', Alike ts ts' → rest.Resembles rest' → r (rest'.prepend ts') = .broken (rest'.unexpected expected)) →
      (∀ next : Token, next.Proper → next.kind ∈ expected → Completable L (ts ++ [next])) →
      (.endOfFile ∈ expected → L ts) → Verdict L r t
  /-- There is an assignment as an operand. -/
  | misplaced {x : String} {pos : Position} : r t = .broken ⟨.assignmentAsOperand x, pos⟩ → Verdict L r t

/-- What can be completed behind one more token can be completed. -/
theorem Completable.of_append {L : List Token → Prop} {ts us : List Token} (h : Completable L (ts ++ us)) (hus : Proper us) :
    Completable L ts := by
  obtain ⟨vs, hvs, h⟩ := h
  exact ⟨us ++ vs, proper_append.2 ⟨hus, hvs⟩, by rwa [← List.append_assoc]⟩

/-- Where each kind of a choice can come next, the tokens can be completed. -/
theorem Completable.of_choice {L : List Token → Prop} {ts : List Token} {expected : List Token.Kind} (hchoice : Choice expected)
    (h : ∀ next : Token, next.Proper → next.kind ∈ expected → Completable L (ts ++ [next])) : Completable L ts := by
  obtain ⟨kind, hkind⟩ := List.exists_mem_of_ne_nil expected hchoice.ne_nil
  have hproper := Token.proper_sample fun hend => hchoice.not_end (hend ▸ hkind)
  refine (h (.sample kind) hproper hkind).of_append ?_
  exact proper_cons.2 ⟨hproper, .nil⟩

/-- The verdict on a text of which a reader takes the first part. The other parts are left to `q`. -/
theorem Outcome.verdict {L₁ L : List Token → Prop} {r₁ r q : TokenStream → TokenStream} {t : TokenStream} (h : Outcome L₁ r₁ t)
    (ht : t.Readable) (hr : ∀ t', t.Resembles t' → r t' = q (r₁ t')) (hL : ∀ ts, L₁ ts → Completable L ts)
    (hbroken : ∀ error, q (broken error) = broken error)
    (h' : ∀ ts rest, r₁ t = rest → rest.Readable → L₁ ts → Verdict (fun us => L (ts ++ us)) q rest) : Verdict L r t := by
  cases h with
  | reads ts rest hrest hts hread =>
    subst hrest
    obtain ⟨hproper, hreadable⟩ := readable_prepend.1 ht
    have hr₁ : r₁ (rest.prepend ts) = rest := hread ts rest (.refl hproper) (.refl hreadable)
    cases h' ts rest hr₁ hreadable hts with
    | accepts us pos hrest' hus hdone =>
      refine .accepts (ts ++ us) pos (by rw [prepend_append, ← hrest']) hus ?_
      rw [hr _ (.refl ht), hr₁, hdone]
    | refuses us rest' expected hrest' hus hread' hexpected hend =>
      subst hrest'
      refine .refuses (ts ++ us) rest' expected (prepend_append rest' ts us).symm hus.append (fun vs rest'' hvs hrest'' => ?_)
        (fun next hs hk => ?_) hend
      · obtain ⟨ts', us', rfl, hts', hus'⟩ := hvs.of_append
        have hresembles := hus'.resembles hrest''
        rw [prepend_append, hr _ (hts'.resembles hresembles), hread _ _ hts' hresembles, hread' _ _ hus' hrest'']
      · rw [List.append_assoc]
        exact (hexpected next hs hk).append
    | misplaced h => exact .misplaced (by rw [hr _ (.refl ht), hr₁, h])
  | stops ts rest expected hrest hchoice hread hexpected =>
    have hcompletable : ∀ next : Token, next.Proper → next.kind ∈ expected → Completable L (ts ++ [next]) :=
      fun next hs hk => (hexpected next hs hk).trans hL
    subst hrest
    refine .refuses ts rest expected rfl (.of_choice hchoice hcompletable) (fun ts' rest' hts' hrest' => ?_) hcompletable
      fun hend => absurd hend hchoice.not_end
    rw [hr _ (hts'.resembles hrest'), hread _ _ hts' hrest', hbroken]
  | misplaced h => exact .misplaced (by rw [hr _ (.refl ht), h, hbroken])

end Grammar

open Grammar TokenStream

/-! ## Parameters -/

namespace Function

/-- The stream behind the word that makes a parameter constant, if it comes next. -/
def behindConst (t : TokenStream) : TokenStream := if t.nextKind? = some .kwConst then t.tail else t

/-- Behind the word a parameter is a name, a colon and the name of a type. -/
theorem behind_param (t : TokenStream) :
    behind Param.parse t = behind (take .name) (behind (take .colon) (behind (take .name) (behindConst t))) := by
  have hconst : behindConst t = if t.startsWith .kwConst = true then t.tail else t := by simp [behindConst, startsWith_eq]
  rw [hconst, ← Stmt.takeTyped_snd]
  have hpair := congrArg Prod.snd (Param.pair_parse t)
  refine hpair.trans ?_
  split <;> simp_all

/-- What is left behind the parameters, given what is left behind the first. -/
def behindParam (t : TokenStream) : TokenStream := if t.nextKind? = some .comma then behind parseParamList t.tail else t

/-- Behind a parameter come a comma and the others, or nothing. -/
theorem behind_parseParamList (t : TokenStream) : behind parseParamList t = behindParam (behind Param.parse t) := by
  unfold behindParam
  obtain ⟨ts, p, rest, -, -, hparse⟩ | ⟨error, error', hparse⟩ := Param.parse_cases t
  · have hrest : behind Param.parse t = rest := behind_eq hparse
    rw [hrest]
    by_cases hcomma : rest.nextKind? = some .comma
    · rw [if_pos hcomma]
      cases rest with
      | done | broken => simp at hcomma
      | more comma rest => exact behind_eq (pair_parseParamList_cons hparse (Option.some.inj hcomma))
    · rw [if_neg hcomma]
      exact behind_eq (pair_parseParamList_one hparse hcomma)
  · have hrest : behind Param.parse t = broken error' := behind_eq hparse
    rw [hrest]
    exact behind_eq (pair_parseParamList_fault hparse)

/-- Where the closing parenthesis comes next, nothing is taken. -/
theorem behind_parseParams_none {t : TokenStream} (h : t.nextKind? = some .closeParen) : behind parseParams t = t :=
  behind_eq (pair_parseParams_none h)

/-- Otherwise the list of parameters is taken. -/
theorem behind_parseParams_some {t : TokenStream} (h : t.nextKind? ≠ some .closeParen) :
    behind parseParams t = behind parseParamList t := behind_congr (pair_parseParams_some h)

/-- No parameters are read from a broken stream. -/
theorem behind_parseParams_broken (error : Diagnostic) : behind parseParams (broken error) = broken error := by
  rw [behind_parseParams_some (by simp), behind_parseParamList, behind_param]
  rfl

/-- A parameter is read, or the reader stops at the first token that cannot come next. -/
theorem outcome_param {t : TokenStream} (ht : t.Readable) : Outcome (Derived Parameter) (behind Param.parse) t := by
  have htyped : ∀ (L : List Token → Prop), (∀ x : Token, x.kind = .name → ∀ colon : Token, colon.kind = .colon →
      ∀ ty : Token, ty.kind = .name → L [x, colon, ty]) → ∀ t : TokenStream, t.Readable →
      Outcome L (fun t => behind (take .name) (behind (take .colon) (behind (take .name) t))) t := by
    intro L hL t ht
    refine .token (r := fun t => behind (take .name) (behind (take .colon) t)) ht (by simp)
      (fun x _ hx => .of_kinds [.colon, .name] (by simp) (hL x hx _ rfl _ rfl)) (fun error => rfl) fun x t₁ _ hx ht₁ => ?_
    refine .token (r := behind (take .name)) ht₁ (by simp)
      (fun colon _ hcolon => .of_kinds [.name] (by simp) (hL x hx colon hcolon _ rfl)) (fun error => rfl)
      fun colon t₂ _ hcolon ht₂ => ?_
    exact .take ht₂ (by simp) fun ty _ hty => hL x hx colon hcolon ty hty
  by_cases hconst : t.nextKind? = some .kwConst
  · obtain ⟨word, rest, rfl, hword⟩ := ht.exists_more hconst (by simp)
    refine (htyped (fun us => Derived Parameter (word :: us)) (fun x hx colon hcolon ty hty => ?_) rest ht.2).cons ht
      fun word' rest' _ hkind _ => ?_
    · exact ⟨_, .constant hword hx hcolon hty⟩
    · rw [behind_param, behindConst, if_pos (by rw [nextKind?_more, hkind, hword])]
      rfl
  · refine (htyped (Derived Parameter) (fun x hx colon hcolon ty hty => ⟨_, .plain hx hcolon hty⟩) t ht).congr ht fun t' ht' => ?_
    rw [behind_param, behindConst, if_neg (by rwa [ht'.nextKind?])]

/-- A list of parameters is read, or the reader stops at the first token that cannot come next. -/
theorem outcome_parseParamList (t : TokenStream) (ht : t.Readable) :
    Outcome (Derived ParameterList) (behind parseParamList) t := by
  have hone : ∀ ts, Derived Parameter ts → Derived ParameterList ts := by
    rintro ts ⟨p, hp⟩
    exact ⟨_, .one hp⟩
  have h : Outcome (Derived ParameterList) (fun t => behindParam (behind Param.parse t)) t := by
    refine (outcome_param ht).andThen ht (fun ts hts => .of_mem (hone ts hts)) (fun error => rfl)
      fun ts rest hrest hreadable hts => ?_
    · by_cases hcomma : rest.nextKind? = some .comma
      · obtain ⟨comma, rest', rfl, hkind⟩ := hreadable.exists_more hcomma (by simp)
        have hle : (more comma rest').length ≤ t.length - 1 := hrest ▸ (Param.parse t).length_le
        refine ((outcome_parseParamList rest' hreadable.2).mono ?_).cons hreadable fun comma' rest'' _ hkind' _ => ?_
        · rintro us ⟨ps, hps⟩
          obtain ⟨p, hp⟩ := hts
          exact ⟨_, .cons hp hkind hps⟩
        · exact if_pos (by rw [nextKind?_more, hkind', hkind])
      · refine .pass ?_ fun t' ht' => if_neg (by rwa [ht'.nextKind?])
        rw [List.append_nil]
        exact hone ts hts
  exact h.congr ht fun t' _ => behind_parseParamList t'
termination_by t.length
decreasing_by
  simp only [length_more] at hle
  omega

/-- So is what stands between the parentheses. -/
theorem outcome_parseParams {t : TokenStream} (ht : t.Readable) : Outcome (Derived Parameters) (behind parseParams) t := by
  by_cases hclose : t.nextKind? = some .closeParen
  · exact .pass ⟨_, .none⟩ fun t' ht' => behind_parseParams_none (by rwa [ht'.nextKind?])
  · refine ((outcome_parseParamList t ht).mono fun ts hts => hts.imp fun ps hps => ?_).congr ht fun t' ht' => ?_
    · exact .some hps
    · exact behind_parseParams_some (by rwa [ht'.nextKind?])

/-! ## Functions -/

/-- What is left behind a function, given what is left behind its parameters. -/
def behindParams (t : TokenStream) : TokenStream :=
  behind Stmt.parseBody (behind (take .openBrace) (behind (take .name) (behind (take .arrow) (behind (take .closeParen) t))))

/-- Nothing more is read of a function from a broken stream. -/
theorem behindParams_broken (error : Diagnostic) : behindParams (broken error) = broken error :=
  Stmt.behind_parseBody_broken error

/-- A function is its header, token by token, and its body. -/
theorem behind_parse (t : TokenStream) :
    behind parse t =
      behindParams (behind parseParams (behind (take .openParen) (behind (take .name) (behind (take .kwFn) t)))) := by
  change _ = behind Stmt.parseBody (header t).rest
  obtain ⟨word, name, openParen, t₃, closeParen, arrow, ty, openBrace, rest, hword, hname, hopen, hclose, harrow, hty, hbrace, rfl,
    hparams⟩ | ⟨error, herror, hheader, -⟩ := parse_cases t
  · have hparams : (parseParams t₃).pair = (_, more closeParen (more arrow (more ty (more openBrace rest)))) := Prod.ext rfl hparams
    rw [header_eq hword hname hopen hparams hclose harrow hty hbrace]
    exact behind_eq (pair_parse hword hname hopen hparams hclose harrow hty hbrace)
  · rw [hheader, Stmt.behind_parseBody_broken]
    exact herror

/-- What a header and an empty body derive. -/
theorem derived_function_empty {word name openParen : Token} (hword : word.kind = .kwFn) (hname : name.kind = .name)
    (hopen : openParen.kind = .openParen) {ts : List Token} (hts : Derived Parameters ts) :
    Derived FunctionDefinition (word :: name :: openParen ::
      (ts ++ [.sample .closeParen, .sample .arrow, .sample .name, .sample .openBrace, .sample .closeBrace])) := by
  obtain ⟨params, hparams⟩ := hts
  exact ⟨_, .defn hword hname hopen hparams rfl rfl rfl rfl (.close .nil rfl)⟩

/-- A function behind its parameters. -/
theorem outcome_behindParams {word name openParen : Token} (hword : word.kind = .kwFn) (hname : name.kind = .name)
    (hopen : openParen.kind = .openParen) {ts : List Token} (hts : Derived Parameters ts) {t : TokenStream} (ht : t.Readable) :
    Outcome (fun us => Derived FunctionDefinition (word :: name :: openParen :: (ts ++ us))) behindParams t := by
  obtain ⟨params, hparams⟩ := hts
  have hdefn : ∀ closeParen : Token, closeParen.kind = .closeParen → ∀ arrow : Token, arrow.kind = .arrow →
      ∀ ty : Token, ty.kind = .name → ∀ brace : Token, brace.kind = .openBrace → ∀ us, Derived Body us →
      Derived FunctionDefinition (word :: name :: openParen :: (ts ++ closeParen :: arrow :: ty :: brace :: us)) := by
    rintro closeParen hclose arrow harrow ty hty brace hbrace us ⟨⟨body, close⟩, hbody⟩
    exact ⟨_, .defn hword hname hopen hparams hclose harrow hty hbrace hbody⟩
  have hempty : Derived Body [.sample .closeBrace] := ⟨_, .close .nil rfl⟩
  refine .token (r := fun t => behind Stmt.parseBody (behind (take .openBrace) (behind (take .name) (behind (take .arrow) t)))) ht
    (by simp) (fun closeParen _ hclose => ?_) Stmt.behind_parseBody_broken fun closeParen t₁ _ hclose ht₁ => ?_
  · exact .of_kinds [.arrow, .name, .openBrace, .closeBrace] (by simp) (hdefn _ hclose _ rfl _ rfl _ rfl _ hempty)
  refine .token (r := fun t => behind Stmt.parseBody (behind (take .openBrace) (behind (take .name) t))) ht₁ (by simp)
    (fun arrow _ harrow => ?_) Stmt.behind_parseBody_broken fun arrow t₂ _ harrow ht₂ => ?_
  · exact .of_kinds [.name, .openBrace, .closeBrace] (by simp) (hdefn _ hclose _ harrow _ rfl _ rfl _ hempty)
  refine .token (r := fun t => behind Stmt.parseBody (behind (take .openBrace) t)) ht₂ (by simp) (fun ty _ hty => ?_)
    Stmt.behind_parseBody_broken fun ty t₃ _ hty ht₃ => ?_
  · exact .of_kinds [.openBrace, .closeBrace] (by simp) (hdefn _ hclose _ harrow _ hty _ rfl _ hempty)
  refine .token (r := behind Stmt.parseBody) ht₃ (by simp) (fun brace _ hbrace => ?_) Stmt.behind_parseBody_broken
    fun brace t₄ _ hbrace ht₄ => ?_
  · exact .of_kinds [.closeBrace] (by simp) (hdefn _ hclose _ harrow _ hty _ hbrace _ hempty)
  exact (Stmt.outcome_parseBody t₄ ht₄).mono fun us hus => hdefn _ hclose _ harrow _ hty _ hbrace us hus

/-- A function is read, or the reader stops at the first token that cannot come next. -/
theorem outcome_parse {t : TokenStream} (ht : t.Readable) : Outcome (Derived FunctionDefinition) (behind parse) t := by
  have hnone : Derived Parameters [] := ⟨_, .none⟩
  refine Outcome.congr (.token (r := fun t => behindParams (behind parseParams (behind (take .openParen) (behind (take .name) t))))
    ht (by simp) (fun word _ hword => ?_) (fun error => ?_) fun word t₁ _ hword ht₁ => ?_) ht fun t' _ => behind_parse t'
  · exact .of_kinds [.name, .openParen, .closeParen, .arrow, .name, .openBrace, .closeBrace] (by simp)
      (derived_function_empty hword rfl rfl hnone)
  · rw [behind_take_broken, behind_take_broken, behind_parseParams_broken, behindParams_broken]
  refine .token (r := fun t => behindParams (behind parseParams (behind (take .openParen) t))) ht₁ (by simp)
    (fun name _ hname => ?_) (fun error => ?_) fun name t₂ _ hname ht₂ => ?_
  · exact .of_kinds [.openParen, .closeParen, .arrow, .name, .openBrace, .closeBrace] (by simp)
      (derived_function_empty hword hname rfl hnone)
  · rw [behind_take_broken, behind_parseParams_broken, behindParams_broken]
  refine .token (r := fun t => behindParams (behind parseParams t)) ht₂ (by simp) (fun openParen _ hopen => ?_) (fun error => ?_)
    fun openParen t₃ _ hopen ht₃ => ?_
  · exact .of_kinds [.closeParen, .arrow, .name, .openBrace, .closeBrace] (by simp) (derived_function_empty hword hname hopen hnone)
  · rw [behind_parseParams_broken, behindParams_broken]
  refine (outcome_parseParams ht₃).andThen ht₃ (fun ts hts => ?_) behindParams_broken fun ts rest _ hreadable hts => ?_
  · exact .of_kinds [.closeParen, .arrow, .name, .openBrace, .closeBrace] (by simp) (derived_function_empty hword hname hopen hts)
  · exact outcome_behindParams hword hname hopen hts hreadable

end Function

/-! ## Whole texts -/

namespace CompilationUnit

/-- No declarations are read from a broken stream. -/
theorem parseGlobals_broken (error : Diagnostic) : (parseGlobals (broken error)).2 = broken error := by
  rw [parseGlobals_nil (by simp) (by simp)]

/-- No functions are read from a broken stream. -/
theorem parseFunctions_broken (error : Diagnostic) : (parseFunctions (broken error)).2 = broken error := by
  rw [parseFunctions_nil (by simp)]

/-- Declarations are read, or the reader stops at the first token that cannot come next. -/
theorem outcome_parseGlobals (t : TokenStream) (ht : t.Readable) :
    Outcome (Derived Declarations) (fun t => (parseGlobals t).2) t := by
  have hnil : Derived Declarations [] := ⟨_, .nil⟩
  obtain ⟨k, hk⟩ := ht.exists_nextKind?
  cases hdeclares : declares? k with
  | none =>
    refine .pass hnil fun t' ht' => ?_
    have hne : ∀ k', declares? k' ≠ none → t'.nextKind? ≠ some k' := by
      intro k' hk' hnext
      rw [ht'.nextKind?, hk] at hnext
      exact hk' (Option.some.inj hnext ▸ hdeclares)
    rw [parseGlobals_nil (hne .kwLet (by simp [declares?])) (hne .kwConst (by simp [declares?]))]
  | some constant =>
    obtain ⟨word, rest, rfl, rfl⟩ := ht.exists_more hk (by rintro rfl; simp [declares?] at hdeclares)
    have h :
        Outcome (fun us => Derived Declarations (word :: us)) (fun t => (parseGlobals (Stmt.behindDecl constant t)).2) rest := by
      refine (Stmt.outcome_decl hdeclares ht.2).andThen (q := fun t => (parseGlobals t).2) ht.2 ?_ parseGlobals_broken ?_
      · rintro ts ⟨s, hs⟩
        exact .of_mem ⟨_, by simpa using Declarations.cons hs .nil⟩
      · rintro ts rest' hrest hreadable ⟨s, hs⟩
        have hle : rest'.length ≤ rest.length := by
          have hbehind : behind (Stmt.parseDeclRest .start constant) rest = Stmt.behindDecl constant rest :=
            Stmt.behind_parseDeclRest
          rw [← hrest, ← hbehind]
          exact (Stmt.parseDeclRest .start constant rest).length_le
        refine (outcome_parseGlobals rest' hreadable).mono ?_
        rintro us ⟨ss, hss⟩
        exact ⟨_, by simpa using Declarations.cons hs hss⟩
    refine h.cons ht fun word' rest' _ hkind _ => ?_
    have hword' : declares? word'.kind = some constant := hkind ▸ hdeclares
    have hdecl : (Stmt.parseDecl (more word' rest')).pair.2 = Stmt.behindDecl constant rest' :=
      (congrArg Prod.snd (Stmt.pair_parseDecl hword')).trans Stmt.behind_parseDeclRest
    rw [parseGlobals_cons hword', hdecl]
termination_by t.length
decreasing_by
  subst_vars
  simp only [length_more]
  omega

/-- So are functions. -/
theorem outcome_parseFunctions (t : TokenStream) (ht : t.Readable) :
    Outcome (Derived Functions) (fun t => (parseFunctions t).2) t := by
  by_cases hfn : t.nextKind? = some .kwFn
  · obtain ⟨word, rest, rfl, hword⟩ := ht.exists_more hfn (by simp)
    have h : Outcome (Derived Functions) (fun t => (parseFunctions (behind Function.parse t)).2) (more word rest) := by
      refine (Function.outcome_parse ht).andThen (q := fun t => (parseFunctions t).2) ht ?_ parseFunctions_broken ?_
      · rintro ts ⟨f, hf⟩
        exact .of_mem ⟨_, by simpa using Functions.cons hf .nil⟩
      · rintro ts rest' hrest hreadable ⟨f, hf⟩
        have hle : rest'.length ≤ (more word rest).length - 1 := hrest ▸ (Function.parse (more word rest)).length_le
        refine (outcome_parseFunctions rest' hreadable).mono ?_
        rintro us ⟨fs, hfs⟩
        exact ⟨_, .cons hf hfs⟩
    refine h.congr ht fun t' ht' => ?_
    obtain ⟨word', rest', rfl, hkind⟩ := ht'.exists_more ht.1
    rw [parseFunctions_cons (hkind.trans hword)]
    rfl
  · refine .pass ⟨_, .nil⟩ fun t' ht' => ?_
    rw [parseFunctions_nil (by rwa [ht'.nextKind?])]
termination_by t.length
decreasing_by
  subst_vars
  simp only [length_more] at hle ⊢
  omega

/-- The stream behind the end of the text, if that is reached. -/
def behindEnding (functions : List Function) (t : TokenStream) : TokenStream :=
  match parseEnding functions t with
  | .ok pos => done pos
  | .error error => broken error

theorem behindEnding_broken (functions : List Function) (error : Diagnostic) :
    behindEnding functions (broken error) = broken error := rfl

/-- What is left behind the functions and the end of a text. -/
def behindFunctions (t : TokenStream) : TokenStream := behindEnding (parseFunctions t).1 (parseFunctions t).2

/-- What is left behind a whole text. -/
def behindText (t : TokenStream) : TokenStream := behindFunctions (parseGlobals t).2

/-- Behind declarations comes the end of the text, a function or another declaration. -/
theorem verdict_declarations {ts : List Token} (hts : Derived Declarations ts) {t : TokenStream} (ht : t.Readable)
    (hfn : t.nextKind? ≠ some .kwFn) : Verdict (fun us => DerivedProgram (ts ++ us)) behindFunctions t := by
  have hfunctions : ∀ us, Derived Functions us → DerivedProgram (ts ++ us) := fun us hus => derivedProgram_append hts hus
  have hnil : DerivedProgram (ts ++ []) := hfunctions [] ⟨_, .nil⟩
  cases t with
  | broken error => exact ht.elim
  | done pos =>
    refine .accepts [] pos rfl hnil ?_
    rw [behindFunctions, parseFunctions_nil hfn]
    rfl
  | more first rest =>
    refine .refuses [] (more first rest) [.kwLet, .kwConst, .kwFn, .endOfFile] rfl (.of_mem hnil) (fun ts' rest' hts' hrest' => ?_)
      (fun next hs hk => ?_) fun _ => hnil
    · obtain ⟨first', rest'', rfl, hkind⟩ := hrest'.exists_more ht.1
      rw [hts'.eq_nil, prepend_nil, behindFunctions, parseFunctions_nil (by rwa [hrest'.nextKind?])]
      rfl
    · have hdecl : ∀ constant, declares? next.kind = some constant → Completable (fun us => DerivedProgram (ts ++ us)) [next] := by
        intro constant hnext
        refine .of_kinds [.name, .colon, .name, .assign, .integer, .semicolon] (by simp) ?_
        have h := derivedProgram_append (Declarations.concat hts (derived_declaration_number hnext)) ⟨_, .nil⟩
        simpa using h
      simp only [List.mem_cons, List.not_mem_nil, or_false] at hk
      rcases hk with hk | hk | hk | hk
      · exact hdecl false (by rw [hk]; rfl)
      · exact hdecl true (by rw [hk]; rfl)
      · obtain ⟨f, hf⟩ := @Function.derived_function_empty _ (.sample .name) (.sample .openParen) hk rfl rfl _ ⟨_, .none⟩
        exact .of_kinds [.name, .openParen, .closeParen, .arrow, .name, .openBrace, .closeBrace] (by simp)
          (hfunctions _ ⟨_, by simpa using Functions.cons hf .nil⟩)
      · exact absurd hk hs.kind_ne

/-- Behind a function comes the end of the text or another function. -/
theorem verdict_functions {ts us : List Token} (hts : Derived Declarations ts) (hus : Derived Functions us) {t : TokenStream}
    (ht : t.Readable) : Verdict (fun vs => DerivedProgram (ts ++ (us ++ vs))) (behindEnding [default]) t := by
  have hnil : DerivedProgram (ts ++ (us ++ [])) := by
    rw [List.append_nil]
    exact derivedProgram_append hts hus
  cases t with
  | broken error => exact ht.elim
  | done pos => exact .accepts [] pos rfl hnil rfl
  | more first rest =>
    refine .refuses [] (more first rest) [.kwFn, .endOfFile] rfl (.of_mem hnil) (fun ts' rest' hts' hrest' => ?_)
      (fun next hs hk => ?_) fun _ => hnil
    · obtain ⟨first', rest'', rfl, -⟩ := hrest'.exists_more ht.1
      rw [hts'.eq_nil]
      rfl
    · simp only [List.mem_cons, List.not_mem_nil, or_false] at hk
      rcases hk with hk | hk
      · have hf := @Function.derived_function_empty _ (.sample .name) (.sample .openParen) hk rfl rfl _ ⟨_, .none⟩
        exact .of_kinds [.name, .openParen, .closeParen, .arrow, .name, .openBrace, .closeBrace] (by simp)
          (derivedProgram_append hts (Functions.concat hus hf))
      · exact absurd hk hs.kind_ne

/-- A text is a whole program, or it is refused at the first token that cannot come next. -/
theorem verdict_parse {t : TokenStream} (ht : t.Readable) : Verdict DerivedProgram behindText t := by
  have hnil : Derived Functions [] := ⟨_, .nil⟩
  refine (outcome_parseGlobals t ht).verdict (q := behindFunctions) ht (fun _ _ => rfl) (fun ts hts => ?_) (fun error => ?_)
    fun ts rest _ hreadable hts => ?_
  · exact .of_mem (by simpa using derivedProgram_append hts hnil)
  · rw [behindFunctions, parseFunctions_nil (by simp)]
    rfl
  by_cases hfn : rest.nextKind? = some .kwFn
  · refine (outcome_parseFunctions rest hreadable).verdict (q := behindEnding [default]) hreadable (fun t' ht' => ?_)
      (fun us hus => .of_mem (derivedProgram_append hts hus)) (fun error => rfl) fun us rest' _ hreadable' hus => ?_
    · obtain ⟨word, rest', rfl, hword⟩ := ht'.readable.exists_more (ht'.nextKind?.trans hfn) (by simp)
      rw [behindFunctions, parseFunctions_cons hword]
      rfl
    · exact verdict_functions hts hus hreadable'
  · exact verdict_declarations hts hreadable hfn

/-- The text of a whole program is read to its end. -/
theorem behindText_of_derived {ts : List Token} (h : DerivedProgram ts) (hts : Proper ts) (pos : Position) :
    behindText ((done pos).prepend ts) = done pos := by
  obtain ⟨pos', u, h⟩ := h
  obtain @⟨ts, us, _, globals, functions, hglobals, hfunctions⟩ := h
  have hu : ProgramText (ts ++ us) pos ⟨globals, functions, .ok pos⟩ := .mk hglobals hfunctions
  change behindEnding (parse _).1.functions (parse _).2 = done pos
  rw [hu.parse_eq hts.shaped]
  rfl

end CompilationUnit

namespace Stmt

/-- The text of statements is read to its end, or the stream breaks. -/
theorem snd_parseAll_ne_more (t : TokenStream) (first : Token) (rest : TokenStream) : (parseAll t).2 ≠ more first rest := by
  cases t with
  | done pos =>
    rw [parseAll]
    simp
  | broken error =>
    rw [parseAll]
    simp
  | more first' rest' =>
    have hle := (parse (more first' rest')).length_le
    rw [parseAll_more]
    exact snd_parseAll_ne_more (parse (more first' rest')).rest first rest
termination_by t.length
decreasing_by
  subst_vars
  simp only [length_more] at hle ⊢
  omega

/-- A text is a sequence of statements, or it is refused at the first token that cannot come next. -/
theorem verdict_parseAll {t : TokenStream} (ht : t.Readable) : Verdict (Derived Statements) (fun t => (parseAll t).2) t := by
  refine (outcome_parseAll t ht).verdict (q := id) ht (fun _ _ => rfl) (fun ts hts => .of_mem hts) (fun _ => rfl)
    fun ts rest hrest hreadable hts => ?_
  cases rest with
  | done pos => exact .accepts [] pos rfl (by rwa [List.append_nil]) rfl
  | broken error => exact hreadable.elim
  | more first rest => exact absurd hrest (snd_parseAll_ne_more t first rest)

end Stmt

end C0Stack
