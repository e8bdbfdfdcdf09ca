import C0Stack.Session
import C0Stack.Proofs.Descent.Progress
import C0Stack.Proofs.Recognition.Viability

/-!
# Reading ends

The calls of the readers are well-founded: each of them goes further (`Routine.everyCall_descends`), so calls nested no deeper than a
multiple of the number of tokens that are left are enough to read them (`Routine.evaluate_eq`), and with them a text is compiled
(`compileWithin_eq`). At the end of the text a routine calls only routines further down the order, so no loop goes round there. What is
read without a fault takes at least one token, and never the one that stands for the end.
-/

namespace C0Stack

/-! ## The calls that are made -/

namespace Script

/-- Every call that the script makes satisfies `P`. -/
def EveryCall {α : Type} (P : Routine → TokenStream → Prop) : Script α → TokenStream → Prop
  | answer _, _ => True
  | look next, t => (next t.sight).EveryCall P t
  | skip next, t => next.EveryCall P t.tail
  | spoil error next, _ => next.EveryCall P (.broken error)
  | call r next, t => P r t ∧ (next (r.run t).1).EveryCall P (r.run t).2

section

variable {α : Type} {P P' : Routine → TokenStream → Prop} {x : Script α} {t : TokenStream}

/-- What every call satisfies may be said less exactly. -/
theorem EveryCall.mono (h : x.EveryCall P t) (hP : ∀ r t', P r t' → P' r t') : x.EveryCall P' t := by
  induction x generalizing t with
  | answer x => trivial
  | look next ih => exact ih _ h
  | skip next ih => exact ih h
  | spoil error next ih => exact ih h
  | call r next ih => exact ⟨hP r t h.1, ih _ h.2⟩

/-- What holds whatever the routines give back holds of the calls that are made and of what they lead to. -/
theorem Ensures.sound {Q : α → TokenStream → Prop} (h : x.Ensures P Q t) (hmoves : ∀ r t', P r t' → r.Moves (r.run t').2 t') :
    x.EveryCall P t ∧ Q (x.run t).1 (x.run t).2 := by
  induction x generalizing t with
  | answer x => exact ⟨trivial, h⟩
  | look next ih => exact ih _ h
  | skip next ih => exact ih h
  | spoil error next ih => exact ih h
  | call r next ih =>
    obtain ⟨hcalls, hQ⟩ := ih _ (h.2 _ _ (hmoves r t h.1))
    exact ⟨⟨h.1, hcalls⟩, hQ⟩

end

end Script

/-- A call that goes further has less before it. -/
theorem Descends.measure_lt {r r' : Routine} {t t' : TokenStream} (h : Descends r' t' r t) :
    17 * t'.length + r'.rank < 17 * t.length + r.rank := by
  rcases h with h | ⟨h, rfl | ⟨error, rfl⟩⟩
  · have := r'.rank_le
    omega
  · omega
  · rw [TokenStream.length_broken]
    omega

namespace Routine

/-- A reader leaves what it may leave. -/
theorem moves (r : Routine) (t : TokenStream) : r.Moves (r.run t).2 t := by
  have h := ((r.progresses t).sound fun r' t' hcall => moves r' t').2
  rwa [run_script] at h
termination_by 17 * t.length + r.rank
decreasing_by exact hcall.measure_lt

/-- Every call that a reader makes goes further. -/
theorem everyCall_descends (r : Routine) (t : TokenStream) : r.script.EveryCall (fun r' t' => Descends r' t' r t) t :=
  ((r.progresses t).sound fun r' t' _ => moves r' t').1

/-- At the end of the text only routines further down the order are called, with nothing left. -/
theorem everyCall_done (r : Routine) (pos : Position) :
    r.script.EveryCall (fun r' t' => r'.rank < r.rank ∧ (t' = .done pos ∨ ∃ error, t' = .broken error)) (.done pos) :=
  (r.everyCall_descends (.done pos)).mono fun _ _ h => h.resolve_left (Nat.not_lt_zero _)

end Routine

/-- No sequence of calls goes further without end. -/
theorem wellFounded_descends : WellFounded fun c' c : Routine × TokenStream => Descends c'.1 c'.2 c.1 c.2 :=
  Subrelation.wf (fun h => h.measure_lt) (measure fun c : Routine × TokenStream => 17 * c.2.length + c.1.rank).wf

/-! ## Calls nested to a given depth -/

/-- What the script leads to, if calls are answered by `f`. -/
def Script.evaluate {α : Type} (f : (r : Routine) → TokenStream → Option (r.Result × TokenStream)) :
    Script α → TokenStream → Option (α × TokenStream)
  | answer x, t => some (x, t)
  | look next, t => (next t.sight).evaluate f t
  | skip next, t => next.evaluate f t.tail
  | spoil error next, _ => next.evaluate f (.broken error)
  | call r next, t =>
    match f r t with
    | some (x, t') => (next x).evaluate f t'
    | none => none

/-- A script whose calls are answered as the readers answer leads to what the readers give. -/
theorem Script.EveryCall.evaluate_eq {α : Type} {f : (r : Routine) → TokenStream → Option (r.Result × TokenStream)} {x : Script α}
    {t : TokenStream} (h : x.EveryCall (fun r t' => f r t' = some (r.run t')) t) : x.evaluate f t = some (x.run t) := by
  induction x generalizing t with
  | answer x => rfl
  | look next ih => exact ih _ h
  | skip next ih => exact ih h
  | spoil error next ih => exact ih h
  | call r next ih =>
    rw [evaluate, h.1]
    exact ih _ h.2

/-- What the routine reads by calls nested no deeper than `n`. -/
def Routine.evaluate : Nat → (r : Routine) → TokenStream → Option (r.Result × TokenStream)
  | 0, _, _ => none
  | n + 1, r, t => r.script.evaluate (evaluate n) t

/-- The depth that is needed grows with the number of tokens that are left, and with nothing else. -/
theorem Routine.evaluate_eq {n : Nat} {r : Routine} {t : TokenStream} (h : 17 * t.length + r.rank < n) :
    evaluate n r t = some (r.run t) := by
  induction n generalizing r t with
  | zero => exact absurd h (Nat.not_lt_zero _)
  | succ n ih =>
    have hcalls : r.script.EveryCall (fun r' t' => evaluate n r' t' = some (r'.run t')) t :=
      (r.everyCall_descends t).mono fun r' t' hcall => ih (by have := hcall.measure_lt; omega)
    rw [evaluate, hcalls.evaluate_eq, run_script]

/-- Compiles the text of a source by calls nested no deeper than `n`. -/
def compileWithin (n : Nat) (mode : Mode) (s : Source) : Option (Except Diagnostic Program) :=
  match mode with
  | .program => (Routine.unit.evaluate n (.ofSource s)).map fun (u, _) => u.emit.assemble
  | .statements => (Routine.all.evaluate n (.ofSource s)).map fun (s, _) => (s.emit .outermost).assemble

/-- A text is compiled by calls nested no deeper than a multiple of the number of its tokens. -/
theorem compileWithin_eq {n : Nat} {s : Source} (h : 17 * ((TokenStream.ofSource s).length + 1) ≤ n) (mode : Mode) :
    compileWithin n mode s = some (compile mode s) := by
  cases mode with
  | program =>
    rw [compileWithin, Routine.evaluate_eq (by simp only [Routine.rank]; omega)]
    rfl
  | statements =>
    rw [compileWithin, Routine.evaluate_eq (by simp only [Routine.rank]; omega)]
    rfl

/-! ## What is taken -/

namespace TokenStream

/-- The tokens of the stream. -/
def tokens : TokenStream → List Token
  | more first rest => first :: rest.tokens
  | _ => []

/-- The tokens of a stream with tokens in front. -/
theorem tokens_prepend (t : TokenStream) (ts : List Token) : (t.prepend ts).tokens = ts ++ t.tokens := by
  induction ts with
  | nil => rfl
  | cons first ts ih => rw [prepend_cons, tokens, ih, List.cons_append]

/-- The stream of a source has the tokens of the source. -/
theorem tokens_ofSource (s : Source) : (ofSource s).tokens = s.lex.tokens := by
  change (prepend _ s.lex.tokens).tokens = _
  rw [tokens_prepend]
  split <;> exact List.append_nil _

/-- The stream is what is left of the source behind some of its tokens. -/
def LeftOf (t : TokenStream) (s : Source) : Prop := ∃ before, ofSource s = t.prepend before

/-- At least one token was taken to get to `t'`, and none of them stands for the end. -/
def Consumed (t t' : TokenStream) : Prop := ∃ taken, taken ≠ [] ∧ t = t'.prepend taken ∧ ∀ token ∈ taken, token.kind ≠ .endOfFile

/-- What is taken from what is left of a source is made of proper tokens. -/
theorem LeftOf.proper {t t' : TokenStream} {s : Source} {taken : List Token} (h : t.LeftOf s) (ht : t = t'.prepend taken) :
    Grammar.Proper taken := by
  obtain ⟨before, h⟩ := h
  have hmem : ∀ token ∈ taken, token ∈ s.lex.tokens := by
    intro token htoken
    rw [← tokens_ofSource, h, ht, tokens_prepend, tokens_prepend]
    exact List.mem_append_right _ (List.mem_append_left _ htoken)
  exact fun token htoken => s.proper_lex token (hmem token htoken)

end TokenStream

namespace Session

open Grammar TokenStream

/-- Reads a part of the grammar and emits its code. -/
def reading {β : Type} (r : Routine) (emit : r.Result → Assembling β) : Step β := do
  let (x, rest) := r.run (← get).tokens
  advance rest
  assemble (emit x)

example : readExpr = reading .expr (fun e => e.emit .outermost) := rfl

/-- Where the step succeeds in what is left of a source, it has taken something, and not the end. -/
def Consumes {β : Type} (step : Step β) : Prop :=
  ∀ (s : Source) (session session' : Session) (x : β), session.tokens.LeftOf s → step.run session = .ok (x, session') →
    session.tokens.Consumed session'.tokens

/-- Emitting code takes no token. -/
theorem run_assemble {β : Type} {m : Assembling β} {session session' : Session} {x : β}
    (h : (assemble m).run session = .ok (x, session')) :
    session'.tokens = session.tokens ∧ ∃ a', m.run session.assembly = .ok (x, a') := by
  rw [assemble, StateT.run_bind, StateT.run_get, pure_bind] at h
  rcases hm : m.run session.assembly with error | ⟨y, a'⟩
  · rw [hm] at h
    cases h
  · rw [hm] at h
    cases h
    exact ⟨rfl, a', rfl⟩

/-- Where a part is read and emitted, the stream is left as the reader leaves it. -/
theorem run_reading {β : Type} {r : Routine} {emit : r.Result → Assembling β} {session session' : Session} {x : β}
    (h : (reading r emit).run session = .ok (x, session')) :
    session'.tokens = (r.run session.tokens).2 ∧
      ∃ a', (emit (r.run session.tokens).1).run session.assembly = .ok (x, a') := by
  change (assemble (emit (r.run session.tokens).1)).run { session with tokens := (r.run session.tokens).2 } = _ at h
  exact run_assemble h

/-- What is read without a fault is derived by the grammar, and nothing is derived from no tokens. -/
theorem consumes_reading {β : Type} {r : Routine} {emit : r.Result → Assembling β} {G : List Token → r.Result → Prop}
    {stops : r.Result → TokenStream → Prop} {whole : r.Result → Prop}
    (hreads : ∀ t, Reads G stops t (r.run t) ∨ Faulty whole (r.run t))
    (hwhole : ∀ {x a y a'}, (emit x).run a = .ok (y, a') → whole x) (hG : ∀ {ts x}, Shaped ts → G ts x → ts ≠ []) :
    Consumes (reading r emit) := by
  intro s session session' x hleft hrun
  obtain ⟨htokens, a', hemit⟩ := run_reading hrun
  obtain ⟨taken, htaken, hderived, -⟩ := (hreads session.tokens).resolve_right fun h => h.1 (hwhole hemit)
  have hproper : Proper taken := hleft.proper htaken
  exact ⟨taken, hG hproper.shaped hderived, htokens ▸ htaken, fun token htoken => (hproper token htoken).kind_ne⟩

/-- An expression takes a token. -/
theorem consumes_expr (ctx : Context) : Consumes (reading .expr fun e => e.emit ctx) := by
  refine consumes_reading Expr.reads_parse (fun h => (Expr.emitted h).typed.whole) ?_
  rintro ts e - he rfl
  obtain ⟨_, _, h, -⟩ := he.starts
  cases h

/-- A statement takes a token. -/
theorem consumes_stmt (ctx : Context) : Consumes (reading .stmt fun s => s.emit ctx) := by
  refine consumes_reading Stmt.reads_parse (fun h => (Stmt.valid_of_emit h).whole) ?_
  rintro ts s hs h rfl
  obtain ⟨_, _, h, -⟩ := h.starts hs
  cases h

/-- A block takes a token. -/
theorem consumes_block (ctx : Context) : Consumes (reading .block fun s => s.emit ctx) := by
  refine consumes_reading Stmt.reads_parseBlock (fun h => (Stmt.valid_of_emit h).whole) ?_
  rintro ts s - h rfl
  obtain ⟨_, _, h, -⟩ := h.starts
  cases h

/-- A declaration takes a token. -/
theorem consumes_decl (ctx : Context) : Consumes (reading .decl fun s => s.emit ctx) := by
  refine consumes_reading Stmt.reads_parseDecl (fun h => (Stmt.valid_of_emit h).whole) ?_
  rintro ts s - h rfl
  obtain ⟨_, _, h, -⟩ := h.starts
  cases h

/-- A function takes a token. -/
theorem consumes_function : Consumes (reading .function Function.emit) := by
  refine consumes_reading Function.reads_parse ?_ ?_
  · intro f a u a' h
    cases f with
    | defn pos name params returns body close =>
      obtain ⟨types, ty, t₁, t₂, a₁, -, -, -, -, hbody, -⟩ := Function.run_emit_defn.1 h
      exact (Stmt.valid_of_emit hbody).whole
    | fault pos params error => exact (Function.run_emit_fault.1 h).elim
  · rintro ts f - h rfl
    obtain ⟨_, _, h, -⟩ := h.exists_fn
    cases h

/-- The next token is taken if it is of the kind, and otherwise nothing changes. -/
theorem run_nextIf_more (kind : Token.Kind) (first : Token) (rest : TokenStream) (a : Assembly) :
    (nextIf kind).run ⟨more first rest, a⟩ =
      if first.kind == kind then .ok (some first, ⟨rest, a⟩) else .ok (none, ⟨more first rest, a⟩) := by
  change StateT.run (if first.kind == kind then (do return some (← next)) else (return none) : Step (Option Token)) _ = _
  split <;> rfl

/-- The name of a type takes a token. -/
theorem consumes_readType (allowVoid : Bool) : Consumes (readType allowVoid) := by
  rintro s ⟨tokens, a⟩ session' ty hleft hrun
  cases tokens with
  | done pos => cases hrun
  | broken error => cases hrun
  | more first rest =>
    rw [readType, StateT.run_bind, expectName, StateT.run_bind, expect, StateT.run_bind, run_nextIf_more] at hrun
    split at hrun
    case isTrue =>
      have hrun : (assemble (Assembling.resolveType allowVoid first.ident)).run ⟨rest, a⟩ = .ok (ty, session') := hrun
      have hproper : Proper [first] := hleft.proper rfl
      exact ⟨[first], nofun, by rw [(run_assemble hrun).1]; rfl, fun token htoken => (hproper token htoken).kind_ne⟩
    case isFalse => cases hrun

end Session

/-- Reading goes on and ends. A reader does what its script says, every call that it makes goes further, and what it leaves is what it
may leave; so the calls are well-founded, and the number of tokens that are left bounds how deep they are nested, whatever the routine
and the text. At the end of the text nothing but routines further down the order is called, so that no loop goes round there. A text
is compiled within that bound, to a program or a fault. Where a part of the grammar is read and emitted, in any context and behind any
tokens of a text, at least one token is taken, and never the end. -/
theorem analysis_progresses :
    (∀ (r : Routine) (t : TokenStream), r.script.run t = r.run t ∧ r.script.EveryCall (fun r' t' => Descends r' t' r t) t ∧
      r.Moves (r.run t).2 t) ∧
    (WellFounded fun c' c : Routine × TokenStream => Descends c'.1 c'.2 c.1 c.2) ∧
    (∀ (r : Routine) (t : TokenStream) (n : Nat), 17 * t.length + r.rank < n → r.evaluate n t = some (r.run t)) ∧
    (∀ (r : Routine) (pos : Position), r.script.EveryCall
      (fun r' t' => r'.rank < r.rank ∧ (t' = .done pos ∨ ∃ error, t' = .broken error)) (.done pos)) ∧
    (∀ (mode : Mode) (s : Source) (n : Nat), 17 * ((TokenStream.ofSource s).length + 1) ≤ n →
      compileWithin n mode s = some (compile mode s)) ∧
    (∀ ctx : Context, Session.Consumes (Session.reading .expr fun e => e.emit ctx) ∧
      Session.Consumes (Session.reading .stmt fun s => s.emit ctx) ∧ Session.Consumes (Session.reading .block fun s => s.emit ctx) ∧
      Session.Consumes (Session.reading .decl fun s => s.emit ctx)) ∧
    Session.Consumes (Session.reading .function Function.emit) ∧
    ∀ allowVoid : Bool, Session.Consumes (Session.readType allowVoid) :=
  ⟨fun r t => ⟨r.run_script t, r.everyCall_descends t, r.moves t⟩, wellFounded_descends, fun _ _ _ => Routine.evaluate_eq,
    Routine.everyCall_done, fun mode _ _ h => compileWithin_eq h mode,
    fun ctx => ⟨Session.consumes_expr ctx, Session.consumes_stmt ctx, Session.consumes_block ctx, Session.consumes_decl ctx⟩,
    Session.consumes_function, Session.consumes_readType⟩

/-- A block that is not closed. -/
def Sample.unclosedBlock : Source := .ofString "\x7b 1;"

/-- A sum in front of a semicolon. -/
def Sample.sumOfLiterals : Source := .ofString "1 + 2;"

/-- At the end of a block that is not closed the reader stops within the bound, and a sum takes its tokens. -/
theorem analysis_progresses_unclosed :
    (compileWithin 68 .statements Sample.unclosedBlock = some (compile .statements Sample.unclosedBlock) ∧
      (compile .statements Sample.unclosedBlock).isOk = false) ∧
    ∃ ty session', (Session.reading .expr fun e => e.emit .outermost).run (.ofSource Sample.sumOfLiterals) = .ok (ty, session') ∧
      (TokenStream.ofSource Sample.sumOfLiterals).Consumed session'.tokens := by
  obtain ⟨-, -, -, -, hcompile, hconsumes, -⟩ := analysis_progresses
  refine ⟨⟨hcompile .statements Sample.unclosedBlock 68 (by decide +kernel), by decide +kernel⟩, ?_⟩
  obtain ⟨⟨ty, session'⟩, hrun⟩ := Assembling.exists_eq_ok
    (show ((Session.reading .expr fun e => e.emit .outermost).run (.ofSource Sample.sumOfLiterals)).isOk = true by decide +kernel)
  exact ⟨ty, session', hrun,
    (hconsumes .outermost).1 Sample.sumOfLiterals (.ofSource Sample.sumOfLiterals) session' ty ⟨[], rfl⟩ hrun⟩

end C0Stack
