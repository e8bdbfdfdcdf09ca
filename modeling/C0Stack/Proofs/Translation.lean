import C0Stack.Proofs.Code.Expr
import C0Stack.Proofs.Grammar.Expr

/-!
# Translation of expressions

Reading an expression and emitting its code succeeds exactly if the tokens begin with an expression of the grammar that has a type
where it stands. What is then taken, emitted and noted is determined by that expression (`Expr.Translated`,
`Expr.translation_exact`).
-/

namespace C0Stack

mutual

/-- An expression that has a type has no fault in it. -/
theorem HasType.whole {Γ Γ' : Scopes} {e : Expr} {ty : Ty} (h : HasType Γ e ty Γ') : e.Whole := by
  cases h with
  | int | var => trivial
  | call _ h => exact h.allWhole
  | assign _ h => exact h.whole
  | paren h => exact h.whole
  | neg h => exact h.whole
  | cast h => exact h.whole
  | binary hl hr => exact ⟨hl.whole, hr.whole⟩

/-- Arguments that have types could be read as a whole. -/
theorem HaveTypes.allWhole {Γ Γ' : Scopes} {es : List Expr} {tys : List Ty} (h : HaveTypes Γ es tys Γ') :
    Expr.AllWhole es := by
  cases h with
  | nil => trivial
  | cons h hs => exact ⟨h.whole, hs.allWhole⟩

end

namespace Grammar

/-- The kind of the first of the tokens; behind the last one comes the end of the text. -/
def nextKind : List Token → Token.Kind
  | [] => .endOfFile
  | t :: _ => t.kind

/-- The next kind of a stream that starts with tokens is that of the first one. -/
theorem nextKind?_prepend_done (ts : List Token) (pos : Position) :
    ((TokenStream.done pos).prepend ts).nextKind? = some (nextKind ts) := by
  cases ts <;> rfl

/-- What is left of the tokens of a text that has an end is again tokens of that text. -/
theorem eq_prepend_done {ts us : List Token} {rest : TokenStream} {pos : Position}
    (h : (TokenStream.done pos).prepend ts = rest.prepend us) :
    ∃ vs, rest = (TokenStream.done pos).prepend vs ∧ ts = us ++ vs := by
  induction us generalizing ts with
  | nil => exact ⟨ts, h.symm, rfl⟩
  | cons u us ih =>
    cases ts with
    | nil => simp at h
    | cons t ts =>
      simp only [TokenStream.prepend_cons, TokenStream.more.injEq] at h
      obtain ⟨rfl, h⟩ := h
      obtain ⟨vs, hrest, rfl⟩ := ih h
      exact ⟨vs, hrest, rfl⟩

/-- The tokens determine the tree. -/
theorem Expression.unique {ts : List Token} (hs : Shaped ts) {e e' : Expr} (h : Expression ts e) (h' : Expression ts e') :
    e' = e := by
  have hk := TokenStream.nextKind?_done Position.start
  have hp := h.pair_parse hs hk (Expr.ends_of_mem_separators (by simp [Expr.separators]) e)
  have hp' := h'.pair_parse hs hk (Expr.ends_of_mem_separators (by simp [Expr.separators]) e')
  exact (Prod.mk.inj (hp'.symm.trans hp)).1

end Grammar

namespace Expr

/-- Some of the tokens that come next, `us`, derive the expression `e`, and the token behind them does not go on with it. -/
structure Leads (us vs : List Token) (e : Expr) : Prop where
  derived : Grammar.Expression us e
  ends : e.Ends (Grammar.nextKind vs)

/-- The tokens `us` are taken and the others left; from the only tree that they derive come the type, the code and the
assignments that are noted, and nothing else changes. -/
structure Translated (ctx : Context) (us vs : List Token) (pos : Position) (a : Assembly) (rest : TokenStream) (ty : Ty)
    (a' : Assembly) (e : Expr) : Prop where
  leads : Leads us vs e
  unique : ∀ e', Grammar.Expression us e' → e' = e
  rest_eq : rest = (TokenStream.done pos).prepend vs
  typed : HasType a.symbols.scopes e ty a'.symbols.scopes
  code_eq : a'.code = a.code ++ e.code ctx a.symbols
  written : a'.symbols.written = a.symbols.written
  breaks_eq : a'.breaks = a.breaks

/-- Where the tokens begin with an expression, the reader takes it. -/
theorem Leads.pair_parse {us vs : List Token} {e : Expr} (h : Leads us vs e) (hs : Grammar.Shaped us) (pos : Position) :
    (parse ((TokenStream.done pos).prepend (us ++ vs))).pair = (e, (TokenStream.done pos).prepend vs) := by
  rw [TokenStream.prepend_append]
  exact h.derived.pair_parse hs (Grammar.nextKind?_prepend_done vs pos) h.ends

/-- What is read and has a type is an expression that the tokens begin with. -/
theorem leads_of_hasType {ts : List Token} {pos : Position} {Γ Γ' : Scopes} {ty : Ty}
    (h : HasType Γ (parse ((TokenStream.done pos).prepend ts)).value ty Γ') :
    ∃ us vs, ts = us ++ vs ∧ Leads us vs (parse ((TokenStream.done pos).prepend ts)).value ∧
      (parse ((TokenStream.done pos).prepend ts)).rest = (TokenStream.done pos).prepend vs := by
  rcases reads_parse ((TokenStream.done pos).prepend ts) with ⟨us, hus, he, k, hk, hend⟩ | ⟨hwhole, -⟩
  · obtain ⟨vs, hrest, rfl⟩ := Grammar.eq_prepend_done hus
    obtain rfl : Grammar.nextKind vs = k := by
      rw [hrest, Grammar.nextKind?_prepend_done] at hk
      exact Option.some.inj hk
    exact ⟨us, vs, rfl, ⟨he, hend.ends⟩, hrest⟩
  · exact absurd h.whole hwhole

/-- Where `ts` is left of the tokens of a text, an expression is read and emitted exactly if `ts` begins with an expression, which
the token behind it does not go on with, that has a type in the scopes of the assembly. If so, these tokens are taken, and the
type, the code and the noted assignments are those of that expression. -/
theorem translation_exact {s : Source} {before ts : List Token} {pos : Position} (hts : s.lex.tokens = before ++ ts)
    (hend : s.lex.ending = .ok pos) (ctx : Context) (a : Assembly) :
    (TokenStream.ofSource s = ((TokenStream.done pos).prepend ts).prepend before) ∧
    ((∃ ty a', ((parse ((TokenStream.done pos).prepend ts)).value.emit ctx).run a = .ok (ty, a')) ↔
      ∃ us vs e ty Γ', ts = us ++ vs ∧ Leads us vs e ∧ HasType a.symbols.scopes e ty Γ') ∧
    ∀ ty a', ((parse ((TokenStream.done pos).prepend ts)).value.emit ctx).run a = .ok (ty, a') →
      ∃ us vs e, ts = us ++ vs ∧
        Translated ctx us vs pos a (parse ((TokenStream.done pos).prepend ts)).rest ty a' e := by
  have hshaped : Grammar.Shaped ts := fun t ht => s.wellShaped_of_mem_lex (hts ▸ List.mem_append_right before ht)
  refine ⟨?_, ⟨?_, ?_⟩, ?_⟩
  · unfold TokenStream.ofSource TokenStream.ofLexed
    rw [hts, hend, ← TokenStream.prepend_append]
    rfl
  · rintro ⟨ty, a', h⟩
    have htyped := (emitted h).typed
    obtain ⟨us, vs, hsplit, hleads, -⟩ := leads_of_hasType htyped
    exact ⟨us, vs, _, ty, _, hsplit, hleads, htyped⟩
  · rintro ⟨us, vs, e, ty, Γ', rfl, hleads, htyped⟩
    have hval := (Prod.mk.inj (hleads.pair_parse hshaped.of_append.1 pos)).1
    obtain ⟨a', hrun, -⟩ := exists_emit ctx htyped
    exact ⟨ty, a', by rw [hval]; exact hrun⟩
  · intro ty a' h
    have he := emitted h
    obtain ⟨us, vs, rfl, hleads, hrest⟩ := leads_of_hasType he.typed
    exact ⟨us, vs, _, rfl, hleads, fun e' h' => hleads.derived.unique hshaped.of_append.1 h', hrest, he.typed, he.code_eq,
      he.written, he.breaks_eq⟩

/-- `y` is a variable of type `int` that has been assigned. -/
def assignedY : Assembly := ⟨⟨[], ⟨[("y", .storage ⟨.int, false, 0, .outermost, true⟩)], 1⟩⟩, .empty, []⟩

/-- An assignment is read and emitted as the grammar says. -/
theorem translation_exact_assignment : ∃ pos us vs e ty a', (Source.ofString "y = 1 + y * -2;").lex.tokens = us ++ vs ∧
    Translated .outermost us vs pos assignedY
      (parse ((TokenStream.done pos).prepend (Source.ofString "y = 1 + y * -2;").lex.tokens)).rest ty a' e := by
  have hend : (Source.ofString "y = 1 + y * -2;").lex.ending.toOption = some ⟨1, 16⟩ := by decide +kernel
  have hrun : (((parse ((TokenStream.done ⟨1, 16⟩).prepend (Source.ofString "y = 1 + y * -2;").lex.tokens)).value.emit
      .outermost).run assignedY).isOk := by decide +kernel
  obtain ⟨⟨ty, a'⟩, hrun⟩ := Assembling.exists_eq_ok hrun
  obtain ⟨us, vs, e, hsplit, h⟩ :=
    (translation_exact (List.nil_append _).symm (Assembling.eq_ok_of_toOption hend) .outermost assignedY).2.2 ty a' hrun
  exact ⟨_, us, vs, e, ty, a', hsplit, h⟩

end Expr

end C0Stack
