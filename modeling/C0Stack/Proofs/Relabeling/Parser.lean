import C0Stack.Proofs.Grammar.CompilationUnit
import C0Stack.Proofs.Relabeling.Basic

/-!
# The tree of a relabeled text

Two streams whose tokens agree but for names and places are read alike: the tree of the second is the relabeled tree of the first, the
faults in it included (`CompilationUnit.relabels_parse`, `Stmt.relabels_parseAll`). A reader decides by the kinds of the tokens alone,
and takes the numbers, the names and the places over into the tree.
-/

namespace C0Stack

variable {φ : Relabeling}

/-- The second token is the first one with its name and its place relabeled. What a string or a double holds does not count. -/
structure Token.Relabels (φ : Relabeling) (t t' : Token) : Prop where
  kind_eq : t'.kind = t.kind
  start_eq : t'.start = φ.pos t.start
  integer_iff : ∀ n, t'.value = .integer n ↔ t.value = .integer n
  text_eq : t.kind = .name → t'.text = φ.name t.text

/-- A name that was taken has the new name and the new place. -/
theorem Token.Relabels.ident_eq {t t' : Token} (h : t.Relabels φ t') (hkind : t.kind = .name) : t'.ident = t.ident.relabel φ := by
  unfold Token.ident
  rw [h.text_eq hkind, h.start_eq]
  rfl

/-- The second stream is the first one, token by token, with its names and its places relabeled. -/
inductive TokenStream.Relabels (φ : Relabeling) : TokenStream → TokenStream → Prop
  | done (pos : Position) : Relabels φ (done pos) (done (φ.pos pos))
  | broken (error : Diagnostic) : Relabels φ (broken error) (broken (error.relabel φ))
  | more {first first' : Token} {rest rest' : TokenStream} :
      first.Relabels φ first' → Relabels φ rest rest' → Relabels φ (more first rest) (more first' rest')

/-- The second reading gives what the first one gives under `f`, and leaves a relabeled stream. -/
structure ReadsAlike (φ : Relabeling) {α : Type} (f : α → α) (r r' : α × TokenStream) : Prop where
  value_eq : r'.1 = f r.1
  rest : r.2.Relabels φ r'.2

namespace TokenStream.Relabels

variable {t t' : TokenStream}

/-- The next tokens are of the same kind. -/
theorem nextKind?_eq (h : t.Relabels φ t') : t'.nextKind? = t.nextKind? := by
  cases h with
  | done | broken => rfl
  | more hfirst hrest => exact congrArg some hfirst.kind_eq

/-- One stream starts with a kind exactly if the other does. -/
theorem startsWith_eq (h : t.Relabels φ t') (kind : Token.Kind) : t'.startsWith kind = t.startsWith kind := by
  rw [TokenStream.startsWith_eq, TokenStream.startsWith_eq, h.nextKind?_eq]

/-- The streams behind the next tokens are related in the same way. -/
theorem tail (h : t.Relabels φ t') : t.tail.Relabels φ t'.tail := by
  cases h with
  | done pos => exact .done pos
  | broken error => exact .broken error
  | more _ hrest => exact hrest

/-- The fault at an unexpected token is the relabeled one. -/
theorem unexpected_eq (h : t.Relabels φ t') (kinds : List Token.Kind) : t'.unexpected kinds = (t.unexpected kinds).relabel φ := by
  cases h with
  | done | broken => rfl
  | @more first first' _ _ hfirst _ =>
    change Diagnostic.mk (.unexpected kinds first'.kind) first'.start = ⟨.unexpected kinds first.kind, φ.pos first.start⟩
    rw [hfirst.kind_eq, hfirst.start_eq]

/-- Where a token of the kind comes next in one stream, one does in the other. -/
theorem exists_more (h : t.Relabels φ t') {kind : Token.Kind} (hkind : kind ≠ .endOfFile) (hnext : t.nextKind? = some kind) :
    ∃ first rest first' rest', t = .more first rest ∧ t' = .more first' rest' ∧ first.kind = kind ∧ first'.kind = kind ∧
      first.Relabels φ first' ∧ rest.Relabels φ rest' := by
  cases h with
  | done pos => exact absurd (Option.some.inj hnext).symm hkind
  | broken error => simp at hnext
  | @more first first' rest rest' hfirst hrest =>
    have hfirst' : first.kind = kind := Option.some.inj hnext
    exact ⟨first, rest, first', rest', rfl, rfl, hfirst', hfirst.kind_eq.trans hfirst', hfirst, hrest⟩

/-- Where one stream is broken, the other is, with the relabeled fault. -/
theorem exists_broken (h : t.Relabels φ t') (hnext : t.nextKind? = none) :
    ∃ error, t = .broken error ∧ t' = .broken (error.relabel φ) := by
  cases h with
  | done | more => simp at hnext
  | broken error => exact ⟨error, rfl, rfl⟩

/-- Either both streams start with the token, or both break, with the same fault but for the place. -/
theorem take_cases (h : t.Relabels φ t') (kind : Token.Kind) (hkind : kind ≠ .endOfFile) :
    (∃ first rest first' rest', t = .more first rest ∧ t' = .more first' rest' ∧ first.kind = kind ∧ first'.kind = kind ∧
        first.Relabels φ first' ∧ rest.Relabels φ rest') ∨
      ∃ error, (t.take kind).pair = (.error error, .broken error) ∧
        (t'.take kind).pair = (.error (error.relabel φ), .broken (error.relabel φ)) := by
  by_cases hnext : t.nextKind? = some kind
  · exact .inl (h.exists_more hkind hnext)
  right
  cases h with
  | done pos =>
    simp only [take, hkind, if_false]
    exact ⟨_, rfl, rfl⟩
  | broken error => exact ⟨error, rfl, rfl⟩
  | @more first first' rest rest' hfirst hrest =>
    have hne : first.kind ≠ kind := fun heq => hnext (congrArg some heq)
    simp only [take, hfirst.kind_eq, hfirst.start_eq, hne, if_false]
    exact ⟨_, rfl, rfl⟩

end TokenStream.Relabels

/-- Two tokens that were taken, or two faults. -/
inductive Taken (φ : Relabeling) (kind : Token.Kind) : Except Diagnostic Token → Except Diagnostic Token → Prop
  | ok {token token' : Token} : token.kind = kind → token.Relabels φ token' → Taken φ kind (.ok token) (.ok token')
  | error (error : Diagnostic) : Taken φ kind (.error error) (.error (error.relabel φ))

/-- Taking a token succeeds or fails in both, and leaves related streams. -/
theorem TokenStream.Relabels.taken {t t' : TokenStream} (h : t.Relabels φ t') (kind : Token.Kind) (hkind : kind ≠ .endOfFile) :
    Taken φ kind (t.take kind).value (t'.take kind).value ∧ (t.take kind).rest.Relabels φ (t'.take kind).rest := by
  obtain ⟨first, rest, first', rest', rfl, rfl, hfirst, hfirst', hrel, hrest⟩ | ⟨error, herror, herror'⟩ := h.take_cases kind hkind
  · rw [take_more hfirst, take_more hfirst']
    exact ⟨.ok hfirst hrel, hrest⟩
  · obtain ⟨_, heq⟩ := Parsed.eq_of_pair herror
    obtain ⟨_, heq'⟩ := Parsed.eq_of_pair herror'
    rw [heq, heq']
    exact ⟨.error error, .broken error⟩

/-- A name, a colon and a type behind each other, or the fault in front of them. -/
theorem TokenStream.Relabels.takeTyped {t t' : TokenStream} (h : t.Relabels φ t') :
    ((∃ x ty x' ty', t.takeTyped.1 = .ok (x, ty) ∧ t'.takeTyped.1 = .ok (x', ty') ∧ x'.ident = x.ident.relabel φ ∧
        ty'.ident = ty.ident.relabel φ) ∨
      ∃ error, t.takeTyped.1 = .error error ∧ t'.takeTyped.1 = .error (error.relabel φ)) ∧
    t.takeTyped.2.Relabels φ t'.takeTyped.2 := by
  have hname := h.taken .name (by simp)
  have hcolon := hname.2.taken .colon (by simp)
  have hty := hcolon.2.taken .name (by simp)
  unfold TokenStream.takeTyped
  dsimp only [Parsed.pair]
  generalize (t.take .name).value = x, (t'.take .name).value = x' at hname
  generalize ((t.take .name).rest.take .colon).rest.take .name = ty at hty
  generalize ((t'.take .name).rest.take .colon).rest.take .name = ty' at hty
  obtain ⟨ty, rest, _⟩ := ty
  obtain ⟨ty', rest', _⟩ := ty'
  obtain ⟨hty, hrest⟩ : Taken φ .name ty ty' ∧ rest.Relabels φ rest' := hty
  cases hname.1 with
  | error error => cases hty <;> exact ⟨.inr ⟨error, rfl, rfl⟩, hrest⟩
  | ok hkind hx =>
    cases hty with
    | error error => exact ⟨.inr ⟨error, rfl, rfl⟩, hrest⟩
    | ok hkind' hty => exact ⟨.inl ⟨_, _, _, _, rfl, rfl, hx.ident_eq hkind, hty.ident_eq hkind'⟩, hrest⟩

/-! ## Expressions -/

namespace Expr

open TokenStream

/-- A fault is read as the relabeled fault. -/
theorem readsAlike_fault (error : Diagnostic) :
    ReadsAlike φ (relabel φ) (.fault error, .broken error) (.fault (error.relabel φ), .broken (error.relabel φ)) :=
  ⟨by rw [relabel], .broken error⟩

/-- The casts behind a relabeled operand are the relabeled casts. -/
theorem relabels_parseCasts (t t' : TokenStream) (h : t.Relabels φ t') (e : Expr) :
    ReadsAlike φ (relabel φ) (parseCasts e t).pair (parseCasts (e.relabel φ) t').pair := by
  cases h with
  | done pos =>
    rw [pair_parseCasts_stop (nextKind?_done pos) (by simp), pair_parseCasts_stop (nextKind?_done _) (by simp)]
    exact ⟨rfl, .done pos⟩
  | broken error =>
    rw [parseCasts, parseCasts]
    exact ⟨by rw [Parsed.pair, Parsed.pair, relabel], .broken error⟩
  | @more first first' rest rest' hfirst hrest =>
    by_cases has : first.kind = .kwAs
    · have has' := hfirst.kind_eq.trans has
      obtain ⟨ty, behind, ty', behind', rfl, rfl, hty, hty', hrel, hbehind⟩ | ⟨error, herror, herror'⟩ :=
        hrest.take_cases .name (by simp)
      · rw [pair_parseCasts_as has hty, pair_parseCasts_as has' hty', hrel.ident_eq hty, hfirst.start_eq]
        have hcast := relabels_parseCasts behind behind' hbehind (.cast e first.start ty.ident)
        rwa [relabel] at hcast
      · rw [pair_parseCasts_cut has herror, pair_parseCasts_cut has' herror']
        exact ⟨by rw [relabel], .broken error⟩
    · rw [pair_parseCasts_stop (nextKind?_more _ _) has, pair_parseCasts_stop (nextKind?_more _ _) (hfirst.kind_eq ▸ has)]
      exact ⟨rfl, .more hfirst hrest⟩
termination_by t.length

mutual

/-- The tree of a relabeled expression is the relabeled tree. -/
theorem relabels_parse (t t' : TokenStream) (h : t.Relabels φ t') : ReadsAlike φ (relabel φ) (parse t).pair (parse t').pair := by
  rw [pair_parse, pair_parse]
  exact relabels_parseLevel .relational false t t' h
termination_by 16 * t.length + 9
decreasing_by simp [rank]

/-- The tree of a relabeled level is the relabeled tree. -/
theorem relabels_parseLevel (level : Precedence) (b : Bool) (t t' : TokenStream) (h : t.Relabels φ t') :
    ReadsAlike φ (relabel φ) (parseLevel level b t).pair (parseLevel level b t').pair := by
  have hle := (parseOperand level b t).length_le
  have hoperand := relabels_parseOperand level b t t' h
  rw [pair_parseLevel, pair_parseLevel, hoperand.value_eq]
  exact relabels_parseOperators level _ (parseOperand level b t).pair.2 _ hoperand.rest
termination_by 16 * t.length + rank level
decreasing_by all_goals cases level <;> simp [rank, Parsed.pair] <;> omega

/-- The operators behind a relabeled operand are the relabeled ones. -/
theorem relabels_parseOperators (level : Precedence) (left : Expr) (t t' : TokenStream) (h : t.Relabels φ t') :
    ReadsAlike φ (relabel φ) (parseOperators level left t).pair (parseOperators level (left.relabel φ) t').pair := by
  by_cases hop : ∃ k op, t.nextKind? = some k ∧ BinaryOp.ofKindAt? level k = some op
  · obtain ⟨k, op, hk, hop⟩ := hop
    have hend : k ≠ .endOfFile := by
      rintro rfl
      cases level <;> simp [BinaryOp.ofKindAt?, BinaryOp.ofKind?] at hop
    obtain ⟨first, rest, first', rest', ht, ht', hfirst, hfirst', hrel, hrest⟩ := h.exists_more hend hk
    have hlen : t.length = rest.length + 1 := by rw [ht, length_more]
    have hle := (parseOperand level true rest).length_le
    have hoperand := relabels_parseOperand level true rest rest' hrest
    have hop₁ : BinaryOp.ofKindAt? level first.kind = some op := by rw [hfirst, hop]
    have hop₂ : BinaryOp.ofKindAt? level first'.kind = some op := by rw [hfirst', hop]
    rw [ht, ht', pair_parseOperators_more hop₁, pair_parseOperators_more hop₂, hoperand.value_eq, hrel.start_eq]
    have hoperators := relabels_parseOperators level (.binary left op first.start (parseOperand level true rest).pair.1)
      (parseOperand level true rest).pair.2 _ hoperand.rest
    rwa [relabel] at hoperators
  · have hstop : ∀ k, t.nextKind? = some k → BinaryOp.ofKindAt? level k = none := fun k hk =>
      Option.eq_none_iff_forall_ne_some.2 fun op hop' => hop ⟨k, op, hk, hop'⟩
    rw [pair_parseOperators_stop hstop, pair_parseOperators_stop (h.nextKind?_eq ▸ hstop)]
    exact ⟨rfl, h⟩
termination_by 16 * t.length
decreasing_by
  · cases level <;> simp only [rank] <;> omega
  · simp only [Parsed.pair]
    omega

/-- The tree of a relabeled operand is the relabeled tree. -/
theorem relabels_parseOperand (level : Precedence) (b : Bool) (t t' : TokenStream) (h : t.Relabels φ t') :
    ReadsAlike φ (relabel φ) (parseOperand level b t).pair (parseOperand level b t').pair := by
  cases level with
  | relational =>
    rw [pair_parseOperand_relational, pair_parseOperand_relational]
    exact relabels_parseLevel .additive b t t' h
  | additive =>
    rw [pair_parseOperand_additive, pair_parseOperand_additive]
    exact relabels_parseLevel .multiplicative b t t' h
  | multiplicative =>
    have hunary := relabels_parseUnary b t t' h
    rw [pair_parseOperand_multiplicative, pair_parseOperand_multiplicative, pair_parseCast, pair_parseCast, hunary.value_eq]
    exact relabels_parseCasts _ _ hunary.rest _
termination_by 16 * t.length + rank level - 1
decreasing_by all_goals simp [rank]

/-- The tree of a relabeled unary expression is the relabeled tree. -/
theorem relabels_parseUnary (b : Bool) (t t' : TokenStream) (h : t.Relabels φ t') :
    ReadsAlike φ (relabel φ) (parseUnary b t).pair (parseUnary b t').pair := by
  cases h with
  | done | broken =>
    rw [parseUnary, parseUnary]
    exact readsAlike_fault _
  | @more first first' rest rest' hfirst hrest =>
    by_cases hminus : first.kind = .minus
    · have hunary := relabels_parseUnary true rest rest' hrest
      rw [pair_parseUnary_minus hminus, pair_parseUnary_minus (hfirst.kind_eq.trans hminus), hunary.value_eq, hfirst.start_eq]
      exact ⟨by rw [relabel], hunary.rest⟩
    · rw [pair_parseUnary_primary hminus, pair_parseUnary_primary (hfirst.kind_eq ▸ hminus)]
      exact relabels_parsePrimary b first first' hfirst rest rest' hrest
termination_by 16 * t.length + 1
decreasing_by all_goals simp <;> omega

/-- The tree of a relabeled primary expression is the relabeled tree. -/
theorem relabels_parsePrimary (b : Bool) (first first' : Token) (hfirst : first.Relabels φ first') (t t' : TokenStream)
    (h : t.Relabels φ t') : ReadsAlike φ (relabel φ) (parsePrimary b first t).pair (parsePrimary b first' t').pair := by
  by_cases hint : ∃ n, first.value = .integer n
  · obtain ⟨n, hv⟩ := hint
    rw [pair_parsePrimary_integer hv, pair_parsePrimary_integer ((hfirst.integer_iff n).2 hv), hfirst.start_eq]
    exact ⟨by rw [relabel], h⟩
  have hv : ∀ n, first.value ≠ .integer n := fun n hn => hint ⟨n, hn⟩
  have hv' : ∀ n, first'.value ≠ .integer n := fun n hn => hv n ((hfirst.integer_iff n).1 hn)
  by_cases hname : first.kind = .name
  · rw [pair_parsePrimary_name hname hv, pair_parsePrimary_name (hfirst.kind_eq.trans hname) hv', hfirst.ident_eq hname]
    exact relabels_parseName b first.ident t t' h
  by_cases hopen : first.kind = .openParen
  · have hparse := relabels_parse t t' h
    have hopen' := hfirst.kind_eq.trans hopen
    obtain ⟨close, rest, close', rest', ht, ht', hclose, hclose', -, hrest⟩ | ⟨error, herror, herror'⟩ :=
      hparse.rest.take_cases .closeParen (by simp)
    · rw [pair_parsePrimary_openParen hopen hv (by rw [ht]; exact pair_take_more hclose rest),
        pair_parsePrimary_openParen hopen' hv' (by rw [ht']; exact pair_take_more hclose' rest'), hparse.value_eq, hfirst.start_eq]
      exact ⟨by rw [relabel], hrest⟩
    · rw [pair_parsePrimary_cut hopen hv herror, pair_parsePrimary_cut hopen' hv' herror', hparse.value_eq]
      exact ⟨by rw [relabel], .broken error⟩
  by_cases hdouble : first.kind = .double
  · rw [pair_parsePrimary_double hdouble hv, pair_parsePrimary_double (hfirst.kind_eq.trans hdouble) hv', hfirst.start_eq]
    exact ⟨by rw [relabel], h⟩
  by_cases hstring : first.kind = .string
  · rw [pair_parsePrimary_string hstring hv, pair_parsePrimary_string (hfirst.kind_eq.trans hstring) hv', hfirst.start_eq]
    exact ⟨by rw [relabel], h⟩
  have hother : first.kind ∉ [Token.Kind.name, .openParen, .double, .string] := by simp [hname, hopen, hdouble, hstring]
  rw [pair_parsePrimary_fault hother hv, pair_parsePrimary_fault (hfirst.kind_eq ▸ hother) hv', hfirst.kind_eq, hfirst.start_eq]
  exact readsAlike_fault ⟨.unexpected starts first.kind, first.start⟩
termination_by 16 * t.length + 15

/-- What is read behind a relabeled name is the relabeled tree. -/
theorem relabels_parseName (b : Bool) (x : Ident) (t t' : TokenStream) (h : t.Relabels φ t') :
    ReadsAlike φ (relabel φ) (parseName b x t).pair (parseName b (x.relabel φ) t').pair := by
  cases h with
  | done pos =>
    rw [pair_parseName_var (nextKind?_done pos) (by simp), pair_parseName_var (nextKind?_done _) (by simp)]
    exact ⟨by rw [relabel], .done pos⟩
  | broken error =>
    rw [parseName, parseName]
    exact readsAlike_fault error
  | @more first first' rest rest' hfirst hrest =>
    by_cases hcall : first.kind = .openParen
    · have hargs := relabels_parseArguments rest rest' hrest
      rw [pair_parseName_call hcall, pair_parseName_call (hfirst.kind_eq.trans hcall), hargs.value_eq]
      exact ⟨by rw [relabel], hargs.rest⟩
    by_cases hassign : first.kind = .assign
    · have hassign' := hfirst.kind_eq.trans hassign
      cases b with
      | true =>
        rw [pair_parseName_fault hassign, pair_parseName_fault hassign']
        exact readsAlike_fault ⟨.assignmentAsOperand x.name, x.pos⟩
      | false =>
        have hparse := relabels_parse rest rest' hrest
        rw [pair_parseName_assign hassign, pair_parseName_assign hassign', hparse.value_eq]
        exact ⟨by rw [relabel], hparse.rest⟩
    have hother : first.kind ≠ .openParen ∧ first.kind ≠ .assign := ⟨hcall, hassign⟩
    rw [pair_parseName_var (nextKind?_more _ _) hother, pair_parseName_var (nextKind?_more _ _) (hfirst.kind_eq ▸ hother)]
    exact ⟨by rw [relabel], .more hfirst hrest⟩
termination_by 16 * t.length
decreasing_by all_goals (simp; omega)

/-- The arguments of a relabeled call are the relabeled arguments. -/
theorem relabels_parseArguments (t t' : TokenStream) (h : t.Relabels φ t') :
    ReadsAlike φ (relabelAll φ) (parseArguments t).pair (parseArguments t').pair := by
  by_cases hclose : t.nextKind? = some .closeParen
  · obtain ⟨first, rest, first', rest', rfl, rfl, hfirst, hfirst', -, hrest⟩ := h.exists_more (by simp) hclose
    rw [pair_parseArguments_none hfirst, pair_parseArguments_none hfirst']
    exact ⟨by rw [relabelAll], hrest⟩
  · rw [pair_parseArguments_some hclose, pair_parseArguments_some (h.nextKind?_eq ▸ hclose)]
    exact relabels_parseArgumentList t t' h
termination_by 16 * t.length + 11

/-- So is a list of at least one argument. -/
theorem relabels_parseArgumentList (t t' : TokenStream) (h : t.Relabels φ t') :
    ReadsAlike φ (relabelAll φ) (parseArgumentList t).pair (parseArgumentList t').pair := by
  have hparse := relabels_parse t t' h
  by_cases hcomma : (parse t).pair.2.nextKind? = some .comma
  · obtain ⟨comma, rest, comma', rest', ht, ht', hfirst, hfirst', -, hrest⟩ := hparse.rest.exists_more (by simp) hcomma
    have hlen : rest.length < t.length := by
      have hle := (parse t).length_le
      have ht : (parse t).rest = .more comma rest := ht
      rw [ht, length_more] at hle
      omega
    have hargs := relabels_parseArgumentList rest rest' hrest
    rw [pair_parseArgumentList_cons ht hfirst, pair_parseArgumentList_cons ht' hfirst', hparse.value_eq, hargs.value_eq]
    exact ⟨by rw [relabelAll], hargs.rest⟩
  · have hcomma' : (parse t').pair.2.nextKind? ≠ some .comma := hparse.rest.nextKind?_eq ▸ hcomma
    obtain ⟨close, rest, close', rest', ht, ht', hclose, hclose', -, hrest⟩ | ⟨error, herror, herror'⟩ :=
      hparse.rest.take_cases .closeParen (by simp)
    · rw [pair_parseArgumentList_one hcomma (by rw [ht]; exact pair_take_more hclose rest),
        pair_parseArgumentList_one hcomma' (by rw [ht']; exact pair_take_more hclose' rest'), hparse.value_eq]
      exact ⟨by rw [relabelAll, relabelAll], hrest⟩
    · rw [pair_parseArgumentList_cut hcomma herror, pair_parseArgumentList_cut hcomma' herror', hparse.value_eq]
      exact ⟨by rw [relabelAll, relabelAll, relabelAll, relabel], .broken error⟩
termination_by 16 * t.length + 10

end

end Expr

/-! ## Statements -/

namespace Stmt

open Grammar TokenStream

/-- The semicolon behind a relabeled statement is read, or the fault is the relabeled one. -/
theorem relabels_parseSemicolon (s : Stmt) {t t' : TokenStream} (h : t.Relabels φ t') :
    ReadsAlike φ (relabel φ) (parseSemicolon s t).pair (parseSemicolon (s.relabel φ) t').pair := by
  obtain ⟨first, rest, first', rest', rfl, rfl, hfirst, hfirst', -, hrest⟩ | ⟨error, herror, herror'⟩ :=
    h.take_cases .semicolon (by simp)
  · rw [pair_parseSemicolon hfirst, pair_parseSemicolon hfirst']
    exact ⟨rfl, hrest⟩
  · rw [pair_parseSemicolon_fault herror, pair_parseSemicolon_fault herror']
    exact ⟨rfl, .broken error⟩

/-- The initial value of a relabeled declaration is the relabeled one. -/
theorem relabels_parseInit (constant : Bool) {t t' : TokenStream} (h : t.Relabels φ t') :
    ReadsAlike φ (Option.map (Expr.relabel φ)) (parseInit constant t).pair (parseInit constant t').pair := by
  obtain ⟨first, rest, first', rest', rfl, rfl, hfirst, hfirst', -, hrest⟩ | ⟨error, herror, herror'⟩ :=
    h.take_cases .assign (by simp)
  · have hparse := Expr.relabels_parse rest rest' hrest
    rw [pair_parseInit_some hfirst, pair_parseInit_some hfirst', hparse.value_eq]
    exact ⟨rfl, hparse.rest⟩
  · cases constant with
    | true =>
      rw [pair_parseInit_fault herror, pair_parseInit_fault herror']
      exact ⟨by rw [Option.map_some, Expr.relabel], .broken error⟩
    | false =>
      rw [pair_parseInit_none (nextKind?_ne_of_take herror), pair_parseInit_none (nextKind?_ne_of_take herror')]
      exact ⟨rfl, h⟩

/-- The tree of a relabeled declaration is the relabeled tree. -/
theorem relabels_parseDeclRest (pos : Position) (constant : Bool) {t t' : TokenStream} (h : t.Relabels φ t') :
    ReadsAlike φ (relabel φ) (parseDeclRest pos constant t).pair (parseDeclRest (φ.pos pos) constant t').pair := by
  rw [pair_parseDeclRest, pair_parseDeclRest]
  obtain ⟨htyped, hrest⟩ := h.takeTyped
  generalize t.takeTyped = r at htyped hrest
  generalize t'.takeTyped = r' at htyped hrest
  obtain ⟨r, rest⟩ := r
  obtain ⟨r', rest'⟩ := r'
  obtain ⟨x, ty, x', ty', rfl, rfl, hx, hty⟩ | ⟨error, rfl, rfl⟩ := htyped
  · have hinit := relabels_parseInit constant hrest
    dsimp only
    rw [hinit.value_eq, hx, hty]
    exact relabels_parseSemicolon (.decl pos constant x.ident ty.ident (parseInit constant rest).pair.1) hinit.rest
  · exact ⟨rfl, hrest⟩

/-- The tree of a relabeled return is the relabeled tree. -/
theorem relabels_parseReturnRest (pos : Position) {t t' : TokenStream} (h : t.Relabels φ t') :
    ReadsAlike φ (relabel φ) (parseReturnRest pos t).pair (parseReturnRest (φ.pos pos) t').pair := by
  by_cases hsemi : t.nextKind? = some .semicolon
  · obtain ⟨first, rest, first', rest', rfl, rfl, hfirst, hfirst', hrel, hrest⟩ := h.exists_more (by simp) hsemi
    rw [pair_parseReturnRest_ret hfirst, pair_parseReturnRest_ret hfirst', hrel.start_eq]
    exact ⟨rfl, hrest⟩
  · have hparse := Expr.relabels_parse t t' h
    rw [pair_parseReturnRest_value hsemi, pair_parseReturnRest_value (h.nextKind?_eq ▸ hsemi), hparse.value_eq]
    exact relabels_parseSemicolon (.retValue pos (Expr.parse t).pair.1) hparse.rest

mutual

/-- The tree of a relabeled statement is the relabeled tree. -/
theorem relabels_parse (t t' : TokenStream) (h : t.Relabels φ t') : ReadsAlike φ (relabel φ) (parse t).pair (parse t').pair := by
  by_cases hlead : ∃ k ∈ leading, t.nextKind? = some k
  · obtain ⟨k, hmem, hk⟩ := hlead
    have hend : k ≠ .endOfFile := by
      rintro rfl
      simp [leading] at hmem
    obtain ⟨first, rest, first', rest', ht, ht', hfirst, -, hrel, hrest⟩ := h.exists_more hend hk
    have hlen : t.length = rest.length + 1 := by rw [ht, length_more]
    rw [ht, ht']
    exact relabels_parse_leading first first' hrel (hfirst ▸ hmem) rest rest' hrest
  · have hother : ∀ k ∈ leading, t.nextKind? ≠ some k := fun k hmem hk => hlead ⟨k, hmem, hk⟩
    have hparse := Expr.relabels_parse t t' h
    rw [pair_parse_expr hother, pair_parse_expr (h.nextKind?_eq ▸ hother), hparse.value_eq]
    exact relabels_parseSemicolon (.expr (Expr.parse t).pair.1) hparse.rest
termination_by 8 * t.length + 1

/-- The statements that their first token tells apart. -/
theorem relabels_parse_leading (first first' : Token) (hrel : first.Relabels φ first') (hmem : first.kind ∈ leading)
    (rest rest' : TokenStream) (h : rest.Relabels φ rest') :
    ReadsAlike φ (relabel φ) (parse (more first rest)).pair (parse (more first' rest')).pair := by
  have hstart := hrel.start_eq
  cases hfirst : first.kind with
  | kwLet | kwConst =>
    have hfirst' := hrel.kind_eq.trans hfirst
    rw [pair_parse_decl (by rw [hfirst, declares?]), pair_parse_decl (by rw [hfirst', declares?]), hstart]
    exact relabels_parseDeclRest first.start _ h
  | kwIf =>
    rw [pair_parse_if hfirst, pair_parse_if (hrel.kind_eq.trans hfirst), hstart]
    exact relabels_parseIfRest first.start rest rest' h
  | kwWhile =>
    have hle := (Expr.parse rest).length_le
    have hparse := Expr.relabels_parse rest rest' h
    have hblock := relabels_parseBlock (Expr.parse rest).pair.2 _ hparse.rest
    rw [pair_parse_while hfirst, pair_parse_while (hrel.kind_eq.trans hfirst), hparse.value_eq, hblock.value_eq, hstart]
    exact ⟨rfl, hblock.rest⟩
  | kwReturn =>
    rw [pair_parse_return hfirst, pair_parse_return (hrel.kind_eq.trans hfirst), hstart]
    exact relabels_parseReturnRest first.start h
  | kwBreak =>
    rw [pair_parse_break hfirst, pair_parse_break (hrel.kind_eq.trans hfirst), hstart]
    exact relabels_parseSemicolon (.leave first.start) h
  | kwContinue =>
    rw [pair_parse_continue hfirst, pair_parse_continue (hrel.kind_eq.trans hfirst), hstart]
    exact relabels_parseSemicolon (.again first.start) h
  | openBrace =>
    have hbody := relabels_parseBody rest rest' h
    rw [pair_parse_brace hfirst, pair_parse_brace (hrel.kind_eq.trans hfirst), hbody.value_eq]
    exact ⟨rfl, hbody.rest⟩
  | semicolon =>
    rw [pair_parse_semicolon hfirst, pair_parse_semicolon (hrel.kind_eq.trans hfirst)]
    exact ⟨rfl, h⟩
  | _ => simp [leading, hfirst] at hmem
termination_by 8 * rest.length + 7
decreasing_by all_goals simp [Parsed.pair] <;> omega

/-- The tree of a relabeled conditional is the relabeled tree. -/
theorem relabels_parseIfRest (pos : Position) (t t' : TokenStream) (h : t.Relabels φ t') :
    ReadsAlike φ (relabel φ) (parseIfRest pos t).pair (parseIfRest (φ.pos pos) t').pair := by
  rcases hparsed : (Expr.parse t).pair with ⟨e, t₁⟩
  rcases hparsed' : (Expr.parse t').pair with ⟨e', t₁'⟩
  rcases hblock : (parseBlock t₁).pair with ⟨body, t₂⟩
  rcases hblock' : (parseBlock t₁').pair with ⟨body', t₂'⟩
  obtain ⟨hle, -⟩ := Parsed.eq_of_pair hparsed
  obtain ⟨hle', -⟩ := Parsed.eq_of_pair hblock
  have hexpr := Expr.relabels_parse t t' h
  rw [hparsed, hparsed'] at hexpr
  obtain ⟨(rfl : e' = e.relabel φ), (hrest₁ : t₁.Relabels φ t₁')⟩ := hexpr
  have hbody := relabels_parseBlock t₁ t₁' hrest₁
  rw [hblock, hblock'] at hbody
  obtain ⟨(rfl : body' = body.relabel φ), (hrest₂ : t₂.Relabels φ t₂')⟩ := hbody
  cases hk : t₂.nextKind? with
  | none =>
    obtain ⟨error, rfl, rfl⟩ := hrest₂.exists_broken hk
    rw [pair_parseIfRest_fault hparsed hblock, pair_parseIfRest_fault hparsed' hblock']
    exact ⟨rfl, hrest₂⟩
  | some k =>
    by_cases helse : k = .kwElse
    · obtain ⟨first, rest, first', rest', rfl, rfl, hfirst, hfirst', hrel, hrest⟩ := hrest₂.exists_more (by simp [helse]) hk
      have hlen : rest.length < t.length := by
        rw [length_more] at hle'
        omega
      have hother := relabels_parseElse rest rest' hrest
      rw [pair_parseIfRest_else hparsed hblock (hfirst.trans helse), pair_parseIfRest_else hparsed' hblock' (hfirst'.trans helse),
        hother.value_eq, hrel.start_eq]
      exact ⟨rfl, hother.rest⟩
    · rw [pair_parseIfRest_then hparsed hblock hk helse,
        pair_parseIfRest_then hparsed' hblock' (hrest₂.nextKind?_eq.trans hk) helse]
      exact ⟨rfl, hrest₂⟩
termination_by 8 * t.length + 5

/-- The tree of a relabeled alternative is the relabeled tree. -/
theorem relabels_parseElse (t t' : TokenStream) (h : t.Relabels φ t') :
    ReadsAlike φ (relabel φ) (parseElse t).pair (parseElse t').pair := by
  by_cases hif : t.nextKind? = some .kwIf
  · obtain ⟨first, rest, first', rest', ht, ht', hfirst, hfirst', hrel, hrest⟩ := h.exists_more (by simp) hif
    have hlen : t.length = rest.length + 1 := by rw [ht, length_more]
    rw [ht, ht', pair_parseElse_if hfirst, pair_parseElse_if hfirst', hrel.start_eq]
    exact relabels_parseIfRest first.start rest rest' hrest
  by_cases hbrace : t.nextKind? = some .openBrace
  · obtain ⟨first, rest, first', rest', ht, ht', hfirst, hfirst', -, hrest⟩ := h.exists_more (by simp) hbrace
    have hlen : t.length = rest.length + 1 := by rw [ht, length_more]
    have hbody := relabels_parseBody rest rest' hrest
    rw [ht, ht', pair_parseElse_brace hfirst, pair_parseElse_brace hfirst', hbody.value_eq]
    exact ⟨rfl, hbody.rest⟩
  rw [pair_parseElse_fault hif hbrace, pair_parseElse_fault (h.nextKind?_eq ▸ hif) (h.nextKind?_eq ▸ hbrace), h.unexpected_eq]
  exact ⟨rfl, .broken _⟩
termination_by 8 * t.length

/-- The tree of a relabeled block is the relabeled tree. -/
theorem relabels_parseBlock (t t' : TokenStream) (h : t.Relabels φ t') :
    ReadsAlike φ (relabel φ) (parseBlock t).pair (parseBlock t').pair := by
  obtain ⟨first, rest, first', rest', ht, ht', hfirst, hfirst', -, hrest⟩ | ⟨error, herror, herror'⟩ :=
    h.take_cases .openBrace (by simp)
  · have hlen : t.length = rest.length + 1 := by rw [ht, length_more]
    have hbody := relabels_parseBody rest rest' hrest
    rw [ht, ht', pair_parseBlock hfirst, pair_parseBlock hfirst', hbody.value_eq]
    exact ⟨rfl, hbody.rest⟩
  · rw [pair_parseBlock_fault herror, pair_parseBlock_fault herror']
    exact ⟨rfl, .broken error⟩
termination_by 8 * t.length + 4

/-- The tree of a relabeled body is the relabeled tree, and its end is in the new place. -/
theorem relabels_parseBody (t t' : TokenStream) (h : t.Relabels φ t') :
    ReadsAlike φ (Prod.map (relabel φ) φ.pos) (parseBody t).pair (parseBody t').pair := by
  have hstmts := relabels_parseStmts t t' h
  obtain ⟨close, rest, close', rest', ht, ht', hclose, hclose', hrel, hrest⟩ | ⟨error, herror, herror'⟩ :=
    hstmts.rest.take_cases .closeBrace (by simp)
  · rw [pair_parseBody (by rw [ht]; exact pair_take_more hclose rest),
      pair_parseBody (by rw [ht']; exact pair_take_more hclose' rest'), hstmts.value_eq, hrel.start_eq]
    exact ⟨rfl, hrest⟩
  · rw [pair_parseBody_fault herror, pair_parseBody_fault herror', hstmts.value_eq]
    exact ⟨rfl, .broken error⟩
termination_by 8 * t.length + 3

/-- The tree of relabeled statements is the relabeled tree. -/
theorem relabels_parseStmts (t t' : TokenStream) (h : t.Relabels φ t') :
    ReadsAlike φ (relabel φ) (parseStmts t).pair (parseStmts t').pair := by
  cases h with
  | done pos =>
    rw [pair_parseStmts_nil (by simp), pair_parseStmts_nil (by simp)]
    exact ⟨rfl, .done pos⟩
  | broken error =>
    rw [pair_parseStmts_nil (by simp), pair_parseStmts_nil (by simp)]
    exact ⟨rfl, .broken error⟩
  | @more first first' rest rest' hfirst hrest =>
    by_cases hclose : first.kind = .closeBrace
    · have hclose' := hfirst.kind_eq.trans hclose
      rw [pair_parseStmts_nil (by simpa using hclose), pair_parseStmts_nil (by simpa using hclose')]
      exact ⟨rfl, .more hfirst hrest⟩
    · have hle := (parse (more first rest)).length_le
      have hparse := relabels_parse (more first rest) (more first' rest') (.more hfirst hrest)
      have hstmts := relabels_parseStmts (parse (more first rest)).pair.2 _ hparse.rest
      rw [pair_parseStmts_cons hclose, pair_parseStmts_cons (hfirst.kind_eq ▸ hclose), hparse.value_eq, hstmts.value_eq]
      exact ⟨rfl, hstmts.rest⟩
termination_by 8 * t.length + 2
decreasing_by
  · simp
  · simp only [Parsed.pair, length_more] at hle ⊢
    omega

end

/-- The tree of a relabeled text of statements is the relabeled tree. -/
theorem relabels_parseAll (t t' : TokenStream) (h : t.Relabels φ t') : ReadsAlike φ (relabel φ) (parseAll t) (parseAll t') := by
  cases h with
  | done pos =>
    rw [parseAll, parseAll]
    exact ⟨rfl, .done pos⟩
  | broken error =>
    rw [parseAll, parseAll]
    exact ⟨rfl, .broken error⟩
  | @more first first' rest rest' hfirst hrest =>
    have hle := (parse (more first rest)).length_le
    have hparse := relabels_parse (more first rest) (more first' rest') (.more hfirst hrest)
    have hall := relabels_parseAll (parse (more first rest)).pair.2 _ hparse.rest
    rw [parseAll_more, parseAll_more, hparse.value_eq, hall.value_eq]
    exact ⟨rfl, hall.rest⟩
termination_by t.length
decreasing_by
  simp only [Parsed.pair, length_more] at hle ⊢
  omega

end Stmt

/-! ## Functions and units -/

open Grammar TokenStream

/-- A relabeled parameter is the relabeled parameter, or the fault is the relabeled one. -/
theorem Param.relabels_parse {t t' : TokenStream} (h : t.Relabels φ t') :
    ReadsAlike φ
      (fun
        | .ok p => .ok (p.relabel φ)
        | .error error => .error (error.relabel φ))
      (Param.parse t).pair (Param.parse t').pair := by
  have hstart : (if t.startsWith .kwConst then t.tail else t).Relabels φ (if t.startsWith .kwConst then t'.tail else t') := by
    split
    · exact h.tail
    · exact h
  rw [Param.pair_parse, Param.pair_parse, h.startsWith_eq]
  obtain ⟨htyped, hrest⟩ := hstart.takeTyped
  generalize TokenStream.takeTyped (if t.startsWith .kwConst then t.tail else t) = r at htyped hrest
  generalize TokenStream.takeTyped (if t.startsWith .kwConst then t'.tail else t') = r' at htyped hrest
  obtain ⟨r, rest⟩ := r
  obtain ⟨r', rest'⟩ := r'
  obtain ⟨x, ty, x', ty', rfl, rfl, hx, hty⟩ | ⟨error, rfl, rfl⟩ := htyped
  · dsimp only
    rw [hx, hty]
    exact ⟨rfl, hrest⟩
  · exact ⟨rfl, hrest⟩

namespace Function

/-- The list of relabeled parameters is the relabeled list. -/
theorem relabels_parseParamList (t t' : TokenStream) (h : t.Relabels φ t') :
    ReadsAlike φ (List.map (Param.relabel φ)) (parseParamList t).pair (parseParamList t').pair := by
  have hle := (Param.parse t).length_le
  have hparam := Param.relabels_parse h
  cases hp : (Param.parse t).pair.1 with
  | error error =>
    have hp' := hparam.value_eq
    rw [hp] at hp'
    rw [pair_parseParamList_fault (Prod.ext hp rfl), pair_parseParamList_fault (Prod.ext hp' rfl)]
    exact ⟨rfl, hparam.rest⟩
  | ok p =>
    have hp' := hparam.value_eq
    rw [hp] at hp'
    by_cases hcomma : (Param.parse t).pair.2.nextKind? = some .comma
    · obtain ⟨comma, rest, comma', rest', ht, ht', hfirst, hfirst', -, hrest⟩ := hparam.rest.exists_more (by simp) hcomma
      have hlen : rest.length < t.length := by
        have ht : (Param.parse t).rest = more comma rest := ht
        rw [ht, length_more] at hle
        omega
      have hparams := relabels_parseParamList rest rest' hrest
      rw [pair_parseParamList_cons (Prod.ext hp ht) hfirst, pair_parseParamList_cons (Prod.ext hp' ht') hfirst', hparams.value_eq]
      exact ⟨rfl, hparams.rest⟩
    · rw [pair_parseParamList_one (Prod.ext hp rfl) hcomma,
        pair_parseParamList_one (Prod.ext hp' rfl) (hparam.rest.nextKind?_eq ▸ hcomma)]
      exact ⟨rfl, hparam.rest⟩
termination_by t.length

/-- So are the parameters between the parentheses. -/
theorem relabels_parseParams {t t' : TokenStream} (h : t.Relabels φ t') :
    ReadsAlike φ (List.map (Param.relabel φ)) (parseParams t).pair (parseParams t').pair := by
  by_cases hclose : t.nextKind? = some .closeParen
  · rw [pair_parseParams_none hclose, pair_parseParams_none (h.nextKind?_eq.trans hclose)]
    exact ⟨rfl, h⟩
  · rw [pair_parseParams_some hclose, pair_parseParams_some (h.nextKind?_eq ▸ hclose)]
    exact relabels_parseParamList t t' h

/-- The headers are read alike. -/
structure Header.Relabels (φ : Relabeling) (h h' : Header) : Prop where
  keyword : Taken φ .kwFn h.keyword h'.keyword
  name : Taken φ .name h.name h'.name
  params : h'.params = h.params.map (Param.relabel φ)
  returns : Taken φ .name h.returns h'.returns
  brace : Taken φ .openBrace h.brace h'.brace
  rest : h.rest.Relabels φ h'.rest

/-- The header of a relabeled function is the relabeled header. -/
theorem relabels_header {t t' : TokenStream} (h : t.Relabels φ t') : (header t).Relabels φ (header t') := by
  obtain ⟨hkeyword, h₁⟩ := h.taken .kwFn (by simp)
  obtain ⟨hname, h₂⟩ := h₁.taken .name (by simp)
  obtain ⟨-, h₃⟩ := h₂.taken .openParen (by simp)
  obtain ⟨hparams, h₄⟩ := relabels_parseParams h₃
  obtain ⟨-, h₅⟩ := h₄.taken .closeParen (by simp)
  obtain ⟨-, h₆⟩ := h₅.taken .arrow (by simp)
  obtain ⟨hreturns, h₇⟩ := h₆.taken .name (by simp)
  obtain ⟨hbrace, h₈⟩ := h₇.taken .openBrace (by simp)
  exact ⟨hkeyword, hname, hparams, hreturns, hbrace, h₈⟩

/-- Headers that are read alike make functions that are. -/
theorem Header.Relabels.ofHeader {h h' : Header} (hh : h.Relabels φ h') :
    ReadsAlike φ (relabel φ) (Function.ofHeader h) (Function.ofHeader h') := by
  obtain ⟨keyword, name, params, returns, brace, t⟩ := h
  obtain ⟨keyword', name', params', returns', brace', t'⟩ := h'
  obtain ⟨hkeyword, hname, rfl, hreturns, hbrace, h⟩ := hh
  cases hkeyword with
  | error error => exact ⟨rfl, h⟩
  | ok _ hkeyword =>
    cases hname with
    | error error => exact ⟨congrArg (fault · [] _) hkeyword.start_eq, h⟩
    | ok hname hname' =>
      cases hreturns with
      | error error => exact ⟨congrArg (fault · _ _) hkeyword.start_eq, h⟩
      | ok hreturns hreturns' =>
        have hident := hname'.ident_eq hname
        have hty := hreturns'.ident_eq hreturns
        cases hbrace with
        | error error =>
          refine ⟨?_, h⟩
          rw [Function.ofHeader, hkeyword.start_eq, hident, hty]
          rfl
        | ok _ _ =>
          have hbody := Stmt.relabels_parseBody t t' h
          rw [Function.ofHeader, Function.ofHeader, hkeyword.start_eq, hident, hty, hbody.value_eq]
          exact ⟨rfl, hbody.rest⟩

/-- The tree of a relabeled function is the relabeled tree. -/
theorem relabels_parse {t t' : TokenStream} (h : t.Relabels φ t') :
    ReadsAlike φ (relabel φ) (parse t).pair (parse t').pair := by
  rw [pair_parse_eq_ofHeader, pair_parse_eq_ofHeader]
  exact (relabels_header h).ofHeader

end Function

namespace CompilationUnit

/-- The tree of relabeled declarations is the relabeled tree. -/
theorem relabels_parseGlobals (t t' : TokenStream) (h : t.Relabels φ t') :
    ReadsAlike φ (Stmt.relabel φ) (parseGlobals t) (parseGlobals t') := by
  cases hnext : t.nextKind?.bind declares? with
  | none =>
    have hlet : t.nextKind? ≠ some .kwLet := fun hk => by simp [hk, declares?] at hnext
    have hconst : t.nextKind? ≠ some .kwConst := fun hk => by simp [hk, declares?] at hnext
    rw [parseGlobals_nil hlet hconst, parseGlobals_nil (h.nextKind?_eq ▸ hlet) (h.nextKind?_eq ▸ hconst)]
    exact ⟨rfl, h⟩
  | some constant =>
    obtain ⟨k, hk, hdeclares⟩ := Option.bind_eq_some_iff.1 hnext
    have hend : k ≠ .endOfFile := by
      rintro rfl
      cases hdeclares
    obtain ⟨first, rest, first', rest', ht, ht', hfirst, hfirst', hrel, hrest⟩ := h.exists_more hend hk
    have hle := (Stmt.parseDecl (more first rest)).length_le
    have hlen : t.length = rest.length + 1 := by rw [ht, length_more]
    have hdeclares₁ : declares? first.kind = some constant := by rw [hfirst, hdeclares]
    have hdeclares₂ : declares? first'.kind = some constant := by rw [hfirst', hdeclares]
    have hdecl : ReadsAlike φ (Stmt.relabel φ) (Stmt.parseDecl (more first rest)).pair
      (Stmt.parseDecl (more first' rest')).pair := by
      rw [Stmt.pair_parseDecl hdeclares₁, Stmt.pair_parseDecl hdeclares₂, hrel.start_eq]
      exact Stmt.relabels_parseDeclRest first.start constant hrest
    have hglobals := relabels_parseGlobals (Stmt.parseDecl (more first rest)).pair.2 _ hdecl.rest
    rw [ht, ht', parseGlobals_cons hdeclares₁, parseGlobals_cons hdeclares₂, hdecl.value_eq, hglobals.value_eq]
    exact ⟨rfl, hglobals.rest⟩
termination_by t.length
decreasing_by
  simp only [Parsed.pair, length_more] at hle ⊢
  omega

/-- The trees of relabeled functions are the relabeled trees. -/
theorem relabels_parseFunctions (t t' : TokenStream) (h : t.Relabels φ t') :
    ReadsAlike φ (List.map (Function.relabel φ)) (parseFunctions t) (parseFunctions t') := by
  by_cases hnext : t.nextKind? = some .kwFn
  · obtain ⟨first, rest, first', rest', ht, ht', hfirst, hfirst', hrel, hrest⟩ := h.exists_more (by simp) hnext
    have hle := (Function.parse (more first rest)).length_le
    have hlen : t.length = rest.length + 1 := by rw [ht, length_more]
    have hparse : ReadsAlike φ _ _ (Function.parse (more first' rest')).pair := Function.relabels_parse (.more hrel hrest)
    have hfunctions := relabels_parseFunctions (Function.parse (more first rest)).pair.2 _ hparse.rest
    rw [ht, ht', parseFunctions_cons hfirst, parseFunctions_cons hfirst', hparse.value_eq, hfunctions.value_eq]
    exact ⟨rfl, hfunctions.rest⟩
  · rw [parseFunctions_nil hnext, parseFunctions_nil (h.nextKind?_eq ▸ hnext)]
    exact ⟨rfl, h⟩
termination_by t.length
decreasing_by
  simp only [Parsed.pair, length_more] at hle ⊢
  omega

/-- A relabeled text ends where the text ends, or with the relabeled fault. -/
theorem relabels_parseEnding (fs : List Function) {t t' : TokenStream} (h : t.Relabels φ t') :
    parseEnding (fs.map (Function.relabel φ)) t' = relabelEnding φ (parseEnding fs t) := by
  unfold parseEnding
  rw [List.isEmpty_map]
  cases h with
  | done | broken => rfl
  | more hfirst hrest => exact congrArg Except.error (Relabels.unexpected_eq (.more hfirst hrest) _)

/-- The tree of a relabeled program text is the relabeled tree. -/
theorem relabels_parse {t t' : TokenStream} (h : t.Relabels φ t') : (parse t').1 = (parse t).1.relabel φ := by
  have hglobals := relabels_parseGlobals t t' h
  have hfunctions := relabels_parseFunctions _ _ hglobals.rest
  have hending := relabels_parseEnding (parseFunctions (parseGlobals t).2).1 hfunctions.rest
  calc (parse t').1
    _ = ⟨(parseGlobals t').1, (parseFunctions (parseGlobals t').2).1,
          parseEnding (parseFunctions (parseGlobals t').2).1 (parseFunctions (parseGlobals t').2).2⟩ := rfl
    _ = (parse t).1.relabel φ := by
      rw [hglobals.value_eq, hfunctions.value_eq, hending]
      rfl

end CompilationUnit

end C0Stack
