import C0Stack.Proofs.Descent.Readers

/-!
# Every call goes further

The routines stand in a fixed order (`Routine.rank`), and a routine calls another one with fewer tokens left, or with the same tokens
and further down that order (`Descends`). The scripts are checked one by one, each against what the routines that it calls leave of
the stream (`Routine.Moves`), whatever they give back.
-/

namespace C0Stack

/-! ## Going on in a stream -/

namespace TokenStream

/-- Fewer tokens are left, or the stream has been broken. -/
def Behind (t' t : TokenStream) : Prop := t'.length < t.length ∨ ∃ error, t' = broken error

/-- Nothing was taken, or something was. -/
def Within (t' t : TokenStream) : Prop := t' = t ∨ t'.Behind t

section

variable {t t' t'' rest : TokenStream} {first : Token}

/-- A stream that has been broken is behind every stream. -/
theorem Behind.of_broken (error : Diagnostic) (t : TokenStream) : (broken error).Behind t := .inr ⟨error, rfl⟩

/-- What is left behind a token is behind it. -/
theorem Behind.of_more (first : Token) (rest : TokenStream) : rest.Behind (more first rest) := .inl (Nat.lt_succ_self _)

theorem Within.refl (t : TokenStream) : t.Within t := .inl rfl

/-- Something was taken, so something or nothing was. -/
theorem Behind.within (h : t'.Behind t) : t'.Within t := .inr h

/-- Something is taken in two steps if it is in both. -/
theorem Behind.trans (h : t''.Behind t') (h' : t'.Behind t) : t''.Behind t := by
  rcases h with h | h
  · rcases h' with h' | ⟨error, rfl⟩
    · exact .inl (Nat.lt_trans h h')
    · exact absurd h (Nat.not_lt_zero _)
  · exact .inr h

/-- Nothing or something, and then something. -/
theorem Within.behind (h : t''.Within t') (h' : t'.Behind t) : t''.Behind t := by
  rcases h with rfl | h
  · exact h'
  · exact h.trans h'

/-- Something, and then nothing or something. -/
theorem Behind.of_within (h : t''.Behind t') (h' : t'.Within t) : t''.Behind t := by
  rcases h' with rfl | h'
  · exact h
  · exact h.trans h'

/-- Nothing or something is taken in two such steps. -/
theorem Within.trans (h : t''.Within t') (h' : t'.Within t) : t''.Within t := by
  rcases h with rfl | h
  · exact h'
  · exact (h.of_within h').within

/-- Behind a token there is less, also where the stream has been broken. -/
theorem Behind.length_lt (h : t'.Behind (more first rest)) : t'.length < (more first rest).length := by
  rcases h with h | ⟨error, rfl⟩
  · exact h
  · exact Nat.succ_pos _

/-- A stream that shows a token has not been broken. -/
theorem Behind.length_lt_of_more (h : (more first rest).Behind t) : (more first rest).length < t.length := by
  rcases h with h | ⟨error, h⟩
  · exact h
  · cases h

/-- Where a kind other than that of the end is seen, there is a token. -/
theorem exists_more {kind : Token.Kind} (hkind : kind ≠ .endOfFile) (h : t.sight.kind? = some kind) :
    ∃ first rest, t = more first rest := by
  cases t with
  | more first rest => exact ⟨first, rest, rfl⟩
  | done pos => exact absurd (Option.some.inj h).symm hkind
  | broken error => cases h

end

end TokenStream

/-! ## The order of the routines -/

namespace Routine

/-- The place of the routine in the order of descent, counted from its end: from a whole text down to a statement, an expression, its
levels and the loops behind an operand. -/
def rank : Routine → Nat
  | unit => 16
  | globals | functions => 15
  | function | decl => 14
  | body | all | params => 13
  | stmts | paramList => 12
  | stmt | declRest .. | ifRest _ | param | arguments => 11
  | block | alternative | returnRest _ | exprStmt | init _ | argumentList => 10
  | expr => 9
  | level .relational _ => 8
  | operand .relational _ => 7
  | level .additive _ => 6
  | operand .additive _ => 5
  | level .multiplicative _ => 4
  | operand .multiplicative _ => 3
  | cast _ => 2
  | unary _ => 1
  | primary _ | name .. | casts _ | operators .. => 0

/-- The order has seventeen places. -/
theorem rank_le (r : Routine) : r.rank ≤ 16 := by
  rcases r with _ | ⟨⟨⟩, _⟩ | ⟨⟨⟩, _⟩ <;> simp [rank]

/-- What the routine may leave of a stream. The loops, and what may be left out, can leave all of it; the others take something. -/
def Moves : Routine → TokenStream → TokenStream → Prop
  | operators .., t', t | casts _, t', t | name .., t', t | init _, t', t | stmts, t', t | all, t', t | params, t', t
  | globals, t', t | functions, t', t | unit, t', t => t'.Within t
  | _, t', t => t'.Behind t

end Routine

/-- A call that goes further: with fewer tokens left, or down the order with the same tokens. Where no token is left, the stream may
have been broken on the way. -/
def Descends (r' : Routine) (t' : TokenStream) (r : Routine) (t : TokenStream) : Prop :=
  t'.length < t.length ∨ r'.rank < r.rank ∧ (t' = t ∨ ∃ error, t' = .broken error)

/-- A call further down the order, with the same tokens or fewer. -/
theorem Descends.later {r r' : Routine} {t t' : TokenStream} (hrank : r'.rank < r.rank) (h : t'.Within t) : Descends r' t' r t := by
  rcases h with rfl | h | h
  · exact .inr ⟨hrank, .inl rfl⟩
  · exact .inl h
  · exact .inr ⟨hrank, .inr h⟩

/-- A call behind a token. -/
theorem Descends.behind {r r' : Routine} {first : Token} {rest t' : TokenStream} (h : t'.Behind (.more first rest)) :
    Descends r' t' r (.more first rest) := .inl h.length_lt

/-- A token that is seen behind what was read shows that something was taken, so behind that token there is less. -/
theorem Descends.past {r r' : Routine} {first : Token} {rest t : TokenStream} (h : (TokenStream.more first rest).Behind t) :
    Descends r' rest r t := .inl (Nat.lt_trans (Nat.lt_succ_self _) h.length_lt_of_more)

/-! ## What a script does whatever the routines give back -/

namespace Script

/-- Every call of the script satisfies `C`, and what it leads to satisfies `Q`, whatever the routines give back. -/
def Ensures {α : Type} (C : Routine → TokenStream → Prop) (Q : α → TokenStream → Prop) : Script α → TokenStream → Prop
  | answer x, t => Q x t
  | look next, t => (next t.sight).Ensures C Q t
  | skip next, t => next.Ensures C Q t.tail
  | spoil error next, _ => next.Ensures C Q (.broken error)
  | call r next, t => C r t ∧ ∀ x t', r.Moves t' t → (next x).Ensures C Q t'

section

variable {α β : Type} {C : Routine → TokenStream → Prop} {t : TokenStream}

/-- One script after another, the second wherever the first may lead. -/
theorem ensures_bind {x : Script α} {f : α → Script β} {Q : β → TokenStream → Prop} :
    (x >>= f).Ensures C Q t ↔ x.Ensures C (fun a t' => (f a).Ensures C Q t') t := by
  change (bind f x).Ensures C Q t ↔ _
  induction x generalizing t with
  | answer x => rfl
  | look next ih => exact ih _
  | skip next ih => exact ih
  | spoil error next ih => exact ih
  | call r next ih => exact and_congr_right fun _ => forall_congr' fun x => forall_congr' fun t' => imp_congr_right fun _ => ih x

theorem ensures_sight {Q : Sight → TokenStream → Prop} : sight.Ensures C Q t ↔ Q t.sight t := Iff.rfl

theorem ensures_advance {Q : Unit → TokenStream → Prop} : advance.Ensures C Q t ↔ Q () t.tail := Iff.rfl

/-- A token is taken if it is there, and otherwise the stream is broken. -/
theorem ensures_take {kind : Token.Kind} (hkind : kind ≠ .endOfFile) {Q : Except Diagnostic Token → TokenStream → Prop}
    (hok : ∀ first rest, t = .more first rest → Q (.ok first) rest) (herror : ∀ error, Q (.error error) (.broken error)) :
    (take kind).Ensures C Q t := by
  rw [take, ensures_bind, ensures_sight]
  cases t with
  | more first rest =>
    simp only [TokenStream.sight]
    split
    · exact hok first rest rfl
    · exact herror _
  | done pos =>
    simp only [TokenStream.sight, if_neg hkind]
    exact herror _
  | broken error => exact herror error

/-- Whether a token is taken or not, something is. -/
theorem ensures_take_behind {kind : Token.Kind} (hkind : kind ≠ .endOfFile) {Q : Except Diagnostic Token → TokenStream → Prop}
    (h : ∀ x t', t'.Behind t → Q x t') : (take kind).Ensures C Q t := by
  refine ensures_take hkind ?_ fun error => h _ _ (.of_broken error t)
  rintro first rest rfl
  exact h _ _ (.of_more first rest)

/-- Whether the semicolon is there or not, something is taken. -/
theorem ensures_semicolon {s : Stmt} {Q : Stmt → TokenStream → Prop} (h : ∀ s' t', t'.Behind t → Q s' t') :
    (semicolon s).Ensures C Q t := by
  rw [semicolon, ensures_bind]
  refine ensures_take_behind (by decide) fun x t' ht' => ?_
  cases x <;> exact h _ _ ht'

/-- Whether the name and the type are there or not, something is taken. -/
theorem ensures_typed {Q : Except Diagnostic (Token × Token) → TokenStream → Prop} (h : ∀ x t', t'.Behind t → Q x t') :
    typed.Ensures C Q t := by
  simp only [typed, ensures_bind]
  refine ensures_take_behind (by decide) fun name t₁ h₁ => ?_
  refine ensures_take_behind (by decide) fun _ t₂ h₂ => ?_
  refine ensures_take_behind (by decide) fun ty t₃ h₃ => ?_
  cases name <;> cases ty <;> exact h _ _ (h₃.trans (h₂.trans h₁))

end

end Script

namespace Routine

open Script TokenStream

attribute [local simp] rank Ensures

/-- Every call that the script of the routine makes goes further, and what it leaves is what the routine may leave. -/
def Progresses (r : Routine) (t : TokenStream) : Prop :=
  r.script.Ensures (fun r' t' => Descends r' t' r t) (fun _ t' => r.Moves t' t) t

/-- A round of a loop: a part that takes something, and the loop again behind it. -/
theorem ensures_round {α : Type} {r part loop : Routine} {f : part.Result → loop.Result → α} {first : Token} {rest : TokenStream}
    (hrank : part.rank < r.rank) (hpart : ∀ t' t, part.Moves t' t → t'.Behind t) (hloop : ∀ t' t, loop.Moves t' t → t'.Within t) :
    (do let x ← perform part; return f x (← perform loop) : Script α).Ensures (fun r' t' => Descends r' t' r (more first rest))
      (fun _ t' => t'.Within (more first rest)) (more first rest) := by
  refine ⟨.later hrank (.refl _), fun _ t₁ h₁ => ?_⟩
  have ht₁ : t₁.Behind (more first rest) := hpart _ _ h₁
  exact ⟨.behind ht₁, fun _ t₂ h₂ => ((hloop _ _ h₂).behind ht₁).within⟩

section

variable (t : TokenStream)

/-- An expression calls the loosest level on the same tokens. -/
theorem progresses_expr : expr.Progresses t := by
  simp only [Progresses, script, perform, Ensures]
  exact ⟨.later (by simp) (.refl t), fun _ _ h => h⟩

/-- A level calls its operand on the same tokens, and the loop behind it. -/
theorem progresses_level (l : Precedence) (b : Bool) : (level l b).Progresses t := by
  simp only [Progresses, script, perform, ensures_bind, Ensures]
  exact ⟨.later (by cases l <;> simp) (.refl t), fun _ t₁ (h₁ : t₁.Behind t) =>
    ⟨.later (by cases l <;> simp) h₁.within, fun _ t₂ (h₂ : t₂.Within t₁) => h₂.behind h₁⟩⟩

/-- An operand calls a level one tighter, or a cast, on the same tokens. -/
theorem progresses_operand (l : Precedence) (b : Bool) : (operand l b).Progresses t := by
  cases l <;> exact ⟨.later (by simp) (.refl t), fun _ _ h => h⟩

/-- The loop of operators calls an operand behind the operator, and itself behind that. -/
theorem progresses_operators (l : Precedence) (left : Expr) : (operators l left).Progresses t := by
  simp only [Progresses, script, ensures_bind, ensures_sight]
  cases t with
  | more first rest =>
    have hrest : rest.Behind (more first rest) := .of_more first rest
    simp only [TokenStream.sight]
    split
    case h_1 op _ =>
      simp only [ensures_bind, ensures_advance, perform, Ensures]
      exact ⟨.behind hrest, fun _ t₁ (h₁ : t₁.Behind rest) =>
        ⟨.behind (h₁.trans hrest), fun _ t₂ (h₂ : t₂.Within t₁) => (h₂.behind (h₁.trans hrest)).within⟩⟩
    case h_2 => exact .refl _
  | done | broken => exact .refl _

/-- A cast calls a unary expression on the same tokens, and the loop behind it. -/
theorem progresses_cast (b : Bool) : (cast b).Progresses t := by
  simp only [Progresses, script, perform, ensures_bind, Ensures]
  exact ⟨.later (by simp) (.refl t), fun _ t₁ (h₁ : t₁.Behind t) =>
    ⟨.later (by simp) h₁.within, fun _ t₂ (h₂ : t₂.Within t₁) => h₂.behind h₁⟩⟩

/-- The loop of casts calls itself behind `as`. -/
theorem progresses_casts (e : Expr) : (casts e).Progresses t := by
  simp only [Progresses, script, ensures_bind, ensures_sight]
  cases t with
  | more first rest =>
    have hrest : rest.Behind (more first rest) := .of_more first rest
    simp only [TokenStream.sight]
    split
    · simp only [ensures_bind, ensures_advance]
      refine ensures_take_behind (by decide) fun ty t₁ (h₁ : t₁.Behind rest) => ?_
      cases ty with
      | ok ty => exact ⟨.behind (h₁.trans hrest), fun _ t₂ (h₂ : t₂.Within t₁) => (h₂.behind (h₁.trans hrest)).within⟩
      | error error => exact (h₁.trans hrest).within
    · exact .refl _
  | done | broken => exact .refl _

/-- A unary expression calls itself behind the minus sign, or a primary expression on the same tokens. -/
theorem progresses_unary (b : Bool) : (unary b).Progresses t := by
  simp only [Progresses, script, ensures_bind, ensures_sight]
  cases t with
  | more first rest =>
    have hrest : rest.Behind (more first rest) := .of_more first rest
    simp only [TokenStream.sight]
    split
    · exact ⟨.behind hrest, fun _ t₁ (h₁ : t₁.Behind rest) => h₁.trans hrest⟩
    · exact ⟨.later (by simp) (.refl _), fun _ _ h => h⟩
  | done | broken => exact ⟨.later (by simp) (.refl _), fun _ _ h => h⟩

/-- A primary expression calls others only behind its first token. -/
theorem progresses_primary (b : Bool) : (primary b).Progresses t := by
  simp only [Progresses, script, ensures_bind, ensures_sight]
  cases t with
  | more first rest =>
    have hrest : rest.Behind (more first rest) := .of_more first rest
    simp only [TokenStream.sight, ensures_bind, ensures_advance]
    split
    case h_1 | h_4 | h_5 => exact hrest
    case h_2 => exact ⟨.behind hrest, fun _ t₁ (h₁ : t₁.Within rest) => h₁.behind hrest⟩
    case h_3 =>
      simp only [ensures_bind, perform, Ensures]
      refine ⟨.behind hrest, fun e t₁ (h₁ : t₁.Behind rest) => ensures_take_behind (by decide) fun close t₂ h₂ => ?_⟩
      cases close <;> exact h₂.trans (h₁.trans hrest)
    case h_6 => exact .of_broken _ _
  | done | broken => exact .of_broken _ _

/-- A name calls others only behind the token that makes a call or an assignment of it. -/
theorem progresses_name (b : Bool) (x : Ident) : (name b x).Progresses t := by
  simp only [Progresses, script, ensures_bind, ensures_sight]
  cases t with
  | more first rest =>
    have hrest : rest.Behind (more first rest) := .of_more first rest
    simp only [TokenStream.sight]
    split
    case h_1 => exact ⟨.behind hrest, fun _ t₁ (h₁ : t₁.Behind rest) => (h₁.trans hrest).within⟩
    case h_2 =>
      cases b with
      | true => exact (Behind.of_broken _ _).within
      | false => exact ⟨.behind hrest, fun _ t₁ (h₁ : t₁.Behind rest) => (h₁.trans hrest).within⟩
    case h_3 => exact .refl _
  | done | broken => exact .refl _

/-- The arguments of a call call the list on the same tokens. -/
theorem progresses_arguments : arguments.Progresses t := by
  simp only [Progresses, script, ensures_bind, ensures_sight]
  split
  case isTrue h =>
    obtain ⟨first, rest, rfl⟩ := exists_more (by decide) h
    exact .of_more first rest
  case isFalse => exact ⟨.later (by simp) (.refl t), fun _ _ h => h⟩

/-- The list of arguments calls an expression on the same tokens, and itself behind the comma. -/
theorem progresses_argumentList : argumentList.Progresses t := by
  simp only [Progresses, script, ensures_bind, ensures_sight, perform, Ensures]
  refine ⟨.later (by simp) (.refl t), fun e t₁ (h₁ : t₁.Behind t) => ?_⟩
  split
  case isTrue h =>
    obtain ⟨comma, rest, rfl⟩ := exists_more (by decide) h
    exact ⟨.past h₁, fun _ t₂ (h₂ : t₂.Behind rest) => h₂.trans ((Behind.of_more comma rest).trans h₁)⟩
  case isFalse =>
    rw [ensures_bind]
    refine ensures_take_behind (by decide) fun close t₂ h₂ => ?_
    cases close <;> exact h₂.trans h₁

/-- An initial value calls an expression behind the sign. -/
theorem progresses_init (constant : Bool) : (init constant).Progresses t := by
  simp only [Progresses, script, ensures_bind, ensures_sight]
  split
  · rw [ensures_bind]
    refine ensures_take_behind (by decide) fun sign t₁ h₁ => ?_
    cases sign with
    | ok sign => exact ⟨.later (by simp) h₁.within, fun _ t₂ (h₂ : t₂.Behind t₁) => (h₂.trans h₁).within⟩
    | error error => exact h₁.within
  · exact .refl t

/-- A declaration calls its initial value behind the name and the type. -/
theorem progresses_declRest (pos : Position) (constant : Bool) : (declRest pos constant).Progresses t := by
  simp only [Progresses, script, ensures_bind]
  refine ensures_typed fun parts t₁ h₁ => ?_
  rcases parts with error | ⟨x, ty⟩
  · exact h₁
  · simp only [ensures_bind, perform, Ensures]
    exact ⟨.later (by simp) h₁.within, fun _ t₂ (h₂ : t₂.Within t₁) =>
      ensures_semicolon fun _ t₃ h₃ => h₃.trans (h₂.behind h₁)⟩

/-- A declaration calls the rest of it behind its first word. -/
theorem progresses_decl : decl.Progresses t := by
  simp only [Progresses, script, ensures_bind, ensures_sight]
  cases t with
  | more first rest =>
    have hrest : rest.Behind (more first rest) := .of_more first rest
    simp only [TokenStream.sight]
    split
    case h_1 | h_2 => exact ⟨.behind hrest, fun _ t₁ (h₁ : t₁.Behind rest) => h₁.trans hrest⟩
    case h_3 => exact .of_broken _ _
  | done | broken => exact .of_broken _ _

/-- A return calls an expression on the same tokens. -/
theorem progresses_returnRest (pos : Position) : (returnRest pos).Progresses t := by
  have hvalue : (do semicolon (.retValue pos (← perform expr)) : Script Stmt).Ensures
      (fun r' t' => Descends r' t' (returnRest pos) t) (fun _ t' => t'.Behind t) t := by
    simp only [ensures_bind, perform, Ensures]
    exact ⟨.later (by simp) (.refl t), fun _ t₁ (h₁ : t₁.Behind t) => ensures_semicolon fun _ t₂ h₂ => h₂.trans h₁⟩
  simp only [Progresses, script, ensures_bind, ensures_sight]
  cases t with
  | more first rest =>
    simp only [TokenStream.sight]
    split
    · exact .of_more first rest
    · exact hvalue
  | done | broken => exact hvalue

/-- An expression with a semicolon calls the expression on the same tokens. -/
theorem progresses_exprStmt : exprStmt.Progresses t := by
  simp only [Progresses, script, ensures_bind, perform, Ensures]
  exact ⟨.later (by simp) (.refl t), fun _ t₁ (h₁ : t₁.Behind t) => ensures_semicolon fun _ t₂ h₂ => h₂.trans h₁⟩

/-- A statement calls the others behind its first word, or an expression with a semicolon on the same tokens. -/
theorem progresses_stmt : stmt.Progresses t := by
  simp only [Progresses, script, ensures_bind, ensures_sight]
  cases t with
  | more first rest =>
    have hrest : rest.Behind (more first rest) := .of_more first rest
    simp only [TokenStream.sight]
    split
    case h_1 | h_2 | h_3 | h_5 | h_8 => exact ⟨.behind hrest, fun _ t₁ (h₁ : t₁.Behind rest) => h₁.trans hrest⟩
    case h_4 =>
      simp only [ensures_bind, ensures_advance, perform, Ensures]
      exact ⟨.behind hrest, fun _ t₁ (h₁ : t₁.Behind rest) =>
        ⟨.behind (h₁.trans hrest), fun _ t₂ (h₂ : t₂.Behind t₁) => h₂.trans (h₁.trans hrest)⟩⟩
    case h_6 | h_7 =>
      rw [ensures_bind, ensures_advance]
      exact ensures_semicolon fun _ t₁ h₁ => h₁.trans hrest
    case h_9 => exact hrest
    case h_10 => exact ⟨.later (by simp) (.refl _), fun _ _ h => h⟩
  | done | broken => exact ⟨.later (by simp) (.refl _), fun _ _ h => h⟩

/-- A conditional calls its condition on the same tokens, and its branches behind it. -/
theorem progresses_ifRest (pos : Position) : (ifRest pos).Progresses t := by
  simp only [Progresses, script, ensures_bind, ensures_sight, perform, Ensures]
  refine ⟨.later (by simp) (.refl t), fun e t₁ (h₁ : t₁.Behind t) =>
    ⟨.later (by simp) h₁.within, fun body t₂ (h₂ : t₂.Behind t₁) => ?_⟩⟩
  cases t₂ with
  | more first rest =>
    have hrest : rest.Behind t := (Behind.of_more first rest).trans (h₂.trans h₁)
    simp only [TokenStream.sight]
    split
    · exact ⟨.later (by simp) hrest.within, fun _ t₃ (h₃ : t₃.Behind rest) => h₃.trans hrest⟩
    · exact h₂.trans h₁
  | done | broken => exact h₂.trans h₁

/-- An alternative calls others only behind its first token. -/
theorem progresses_alternative : alternative.Progresses t := by
  simp only [Progresses, script, ensures_bind, ensures_sight]
  cases t with
  | more first rest =>
    have hrest : rest.Behind (more first rest) := .of_more first rest
    simp only [TokenStream.sight]
    split
    case h_1 | h_2 => exact ⟨.behind hrest, fun _ t₁ (h₁ : t₁.Behind rest) => h₁.trans hrest⟩
    case h_3 => exact .of_broken _ _
  | done | broken => exact .of_broken _ _

/-- A block calls its body behind the brace. -/
theorem progresses_block : block.Progresses t := by
  simp only [Progresses, script, ensures_bind]
  refine ensures_take (by decide) ?_ fun error => .of_broken error t
  rintro first rest rfl
  have hrest : rest.Behind (more first rest) := .of_more first rest
  exact ⟨.behind hrest, fun _ t₁ (h₁ : t₁.Behind rest) => h₁.trans hrest⟩

/-- A body calls its statements on the same tokens. -/
theorem progresses_body : body.Progresses t := by
  simp only [Progresses, script, ensures_bind, perform, Ensures]
  refine ⟨.later (by simp) (.refl t), fun _ t₁ (h₁ : t₁.Within t) => ensures_take_behind (by decide) fun close t₂ h₂ => ?_⟩
  cases close <;> exact h₂.of_within h₁

/-- Statements call one on the same tokens, and themselves behind it. -/
theorem progresses_stmts : stmts.Progresses t := by
  simp only [Progresses, script, ensures_bind, ensures_sight]
  cases t with
  | more first rest =>
    simp only [TokenStream.sight]
    split
    · exact .refl _
    · exact ensures_round (by simp) (fun _ _ => id) (fun _ _ => id)
  | done | broken => exact .refl _

/-- A text of statements calls one on the same tokens, and itself behind it. -/
theorem progresses_all : all.Progresses t := by
  simp only [Progresses, script, ensures_bind, ensures_sight]
  cases t with
  | more first rest => exact ensures_round (by simp) (fun _ _ => id) (fun _ _ => id)
  | done | broken => exact .refl _

/-- A parameter calls nothing. -/
theorem progresses_param : param.Progresses t := by
  simp only [Progresses, script, ensures_bind, ensures_sight]
  split
  case isTrue h =>
    obtain ⟨first, rest, rfl⟩ := exists_more (by decide) (of_decide_eq_true h)
    rw [ensures_bind, ensures_advance, ensures_bind]
    refine ensures_typed fun parts t₁ h₁ => ?_
    rcases parts with error | ⟨x, ty⟩ <;> exact h₁.trans (.of_more first rest)
  case isFalse =>
    rw [ensures_bind]
    refine ensures_typed fun parts t₁ h₁ => ?_
    rcases parts with error | ⟨x, ty⟩ <;> exact h₁

/-- The list of parameters calls one on the same tokens, and itself behind the comma. -/
theorem progresses_paramList : paramList.Progresses t := by
  simp only [Progresses, script, ensures_bind, perform, Ensures]
  refine ⟨.later (by simp) (.refl t), fun p t₁ (h₁ : t₁.Behind t) => ?_⟩
  cases p with
  | error error => exact h₁
  | ok p =>
    simp only [ensures_bind, ensures_sight]
    split
    case isTrue h =>
      obtain ⟨comma, rest, rfl⟩ := exists_more (by decide) h
      exact ⟨.past h₁, fun _ t₂ (h₂ : t₂.Behind rest) => h₂.trans ((Behind.of_more comma rest).trans h₁)⟩
    case isFalse => exact h₁

/-- The parameters call the list on the same tokens. -/
theorem progresses_params : params.Progresses t := by
  simp only [Progresses, script, ensures_bind, ensures_sight]
  split
  · exact .refl t
  · exact ⟨.later (by simp) (.refl t), fun _ t₁ (h₁ : t₁.Behind t) => h₁.within⟩

/-- A function calls its parameters and its body behind tokens of its header. -/
theorem progresses_function : function.Progresses t := by
  simp only [Progresses, script, ensures_bind, perform, Ensures]
  refine ensures_take_behind (by decide) fun keyword t₁ h₁ => ?_
  refine ensures_take_behind (by decide) fun name t₂ h₂ => ?_
  refine ensures_take_behind (by decide) fun _ t₃ h₃ => ?_
  have ht₃ : t₃.Behind t := h₃.trans (h₂.trans h₁)
  refine ⟨.later (by simp) ht₃.within, fun ps t₄ (h₄ : t₄.Within t₃) => ?_⟩
  refine ensures_take_behind (by decide) fun _ t₅ h₅ => ?_
  refine ensures_take_behind (by decide) fun _ t₆ h₆ => ?_
  refine ensures_take_behind (by decide) fun returns t₇ h₇ => ?_
  refine ensures_take_behind (by decide) fun brace t₈ h₈ => ?_
  have ht₈ : t₈.Behind t := h₈.trans (h₇.trans (h₆.trans (h₅.trans (h₄.behind ht₃))))
  split
  case h_1 => exact ⟨.later (by simp) ht₈.within, fun _ t₉ (h₉ : t₉.Behind t₈) => h₉.trans ht₈⟩
  all_goals exact ht₈

/-- Declarations call one on the same tokens, and themselves behind it. -/
theorem progresses_globals : globals.Progresses t := by
  simp only [Progresses, script, ensures_bind, ensures_sight]
  split
  case isTrue h =>
    obtain ⟨first, rest, rfl⟩ : ∃ first rest, t = more first rest :=
      h.elim (exists_more (by decide)) (exists_more (by decide))
    exact ensures_round (by simp) (fun _ _ => id) (fun _ _ => id)
  case isFalse => exact .refl t

/-- Functions call one on the same tokens, and themselves behind it. -/
theorem progresses_functions : functions.Progresses t := by
  simp only [Progresses, script, ensures_bind, ensures_sight]
  split
  case isTrue h =>
    obtain ⟨first, rest, rfl⟩ := exists_more (by decide) h
    exact ensures_round (by simp) (fun _ _ => id) (fun _ _ => id)
  case isFalse => exact .refl t

/-- A program calls its declarations on the same tokens, and its functions behind them. -/
theorem progresses_unit : unit.Progresses t := by
  simp only [Progresses, script, ensures_bind, ensures_sight, perform, Ensures]
  exact ⟨.later (by simp) (.refl t), fun _ t₁ (h₁ : t₁.Within t) =>
    ⟨.later (by simp) h₁, fun _ t₂ (h₂ : t₂.Within t₁) => h₂.trans h₁⟩⟩

end

/-- Every routine goes further, whatever is left. -/
theorem progresses (r : Routine) (t : TokenStream) : r.Progresses t := by
  cases r with
  | expr => exact progresses_expr t
  | level l b => exact progresses_level t l b
  | operand l b => exact progresses_operand t l b
  | operators l left => exact progresses_operators t l left
  | cast b => exact progresses_cast t b
  | casts e => exact progresses_casts t e
  | unary b => exact progresses_unary t b
  | primary b => exact progresses_primary t b
  | name b x => exact progresses_name t b x
  | arguments => exact progresses_arguments t
  | argumentList => exact progresses_argumentList t
  | init constant => exact progresses_init t constant
  | declRest pos constant => exact progresses_declRest t pos constant
  | decl => exact progresses_decl t
  | returnRest pos => exact progresses_returnRest t pos
  | exprStmt => exact progresses_exprStmt t
  | stmt => exact progresses_stmt t
  | ifRest pos => exact progresses_ifRest t pos
  | alternative => exact progresses_alternative t
  | block => exact progresses_block t
  | body => exact progresses_body t
  | stmts => exact progresses_stmts t
  | all => exact progresses_all t
  | param => exact progresses_param t
  | paramList => exact progresses_paramList t
  | params => exact progresses_params t
  | function => exact progresses_function t
  | globals => exact progresses_globals t
  | functions => exact progresses_functions t
  | unit => exact progresses_unit t

end Routine

end C0Stack
