import C0Stack.Compiler
import C0Stack.Proofs.Token.Joined
import C0Stack.Proofs.Token.Steps

/-!
# Sources that read alike

Two sources may hold what is left to read in different ways, and still be told apart by no read. This module says what it takes: a
relation between sources that stand in the same place, answer every look at the next character alike, and stay related (`Source.Agrees`).
Then all that is built from such looks agrees, up to the cutting of the whole text into tokens. A relation may also answer alike only to
looks that do not take a line feed (`Source.Parallel`). That is enough for every token but a string.
-/

namespace C0Stack

namespace Source

/-- Related sources give the same answer to the read, and are related after it. -/
def Agrees (R : Source → Source → Prop) {ε α : Type} (f : Source → Except ε α × Source) : Prop :=
  ∀ s t, R s t → ∃ t', f t = ((f s).1, t') ∧ R (f s).2 t'

/-- Related sources stand in the same place, and agree on the next character where it is not taken if it is a line feed. -/
structure Parallel (R : Source → Source → Prop) : Prop where
  pos_eq : ∀ {s t : Source}, R s t → t.pos = s.pos
  nextIf : ∀ {p : Char → Bool}, p '\n' = false → Agrees R (Source.nextIf p)

section

variable {R : Source → Source → Prop}

/-- Runs of characters agree, if single characters do. -/
theorem Agrees.takeWhile {p : Char → Bool} (h : Agrees R (nextIf p)) : Agrees R (takeWhile p) := by
  intro s t hst
  fun_induction Source.takeWhile p s generalizing t with
  | case1 s c s' hs cs s'' hs' ih =>
    obtain ⟨t', ht, hst'⟩ := h s t hst
    rw [hs] at ht hst'
    obtain ⟨t'', ht', hst''⟩ := ih t' hst'
    rw [hs'] at ht' hst''
    refine ⟨t'', ?_, hst''⟩
    rw [Source.takeWhile, ht]
    simp only [ht']
  | case2 s c s' hs e s'' hs' ih =>
    obtain ⟨t', ht, hst'⟩ := h s t hst
    rw [hs] at ht hst'
    obtain ⟨t'', ht', hst''⟩ := ih t' hst'
    rw [hs'] at ht' hst''
    refine ⟨t'', ?_, hst''⟩
    rw [Source.takeWhile, ht]
    simp only [ht']
  | case3 s s' hs | case4 s e s' hs =>
    obtain ⟨t', ht, hst'⟩ := h s t hst
    rw [hs] at ht hst'
    refine ⟨t', ?_, hst'⟩
    rw [Source.takeWhile, ht]

/-- The characters of strings agree, if single characters do. -/
theorem Agrees.quotedChars (h : Agrees R next) (quote : Char) (escaped : Bool) : Agrees R (Lexing.quotedChars quote escaped) := by
  intro s t hst
  fun_induction Lexing.quotedChars quote escaped s generalizing t with
  | case1 escaped s c s' hs hc =>
    obtain ⟨t', ht, hst'⟩ := h s t hst
    rw [hs] at ht hst'
    refine ⟨t', ?_, hst'⟩
    rw [Lexing.quotedChars, ht]
    simp only [hc, and_self, if_true]
  | case2 escaped s c s' hs hc cs s'' hs' ih | case3 escaped s c s' hs hc s'' hs' ih | case4 escaped s c s' hs hc e s'' hs' ih =>
    obtain ⟨t', ht, hst'⟩ := h s t hst
    rw [hs] at ht hst'
    obtain ⟨t'', ht', hst''⟩ := ih t' hst'
    rw [hs'] at ht' hst''
    refine ⟨t'', ?_, hst''⟩
    rw [Lexing.quotedChars, ht]
    simp only [if_neg hc, ht']
  | case5 escaped s s' hs | case6 escaped s e s' hs =>
    obtain ⟨t', ht, hst'⟩ := h s t hst
    rw [hs] at ht hst'
    refine ⟨t', ?_, hst'⟩
    rw [Lexing.quotedChars, ht]

/-! ## Steps of the lexer -/

/-- Steps that agree can be put in sequence. -/
theorem Agrees.bind {α β : Type} {m : Lexing α} {k : α → Lexing β} (hm : Agrees R m.on) (hk : ∀ x, Agrees R (k x).on) :
    Agrees R (m >>= k).on := by
  intro s t hst
  obtain ⟨t', ht, hst'⟩ := hm s t hst
  rw [Lexing.on_bind, Lexing.on_bind, ht]
  rcases hs : m.on s with ⟨e | x, s'⟩
  · rw [hs] at hst'
    exact ⟨t', rfl, hst'⟩
  · rw [hs] at hst'
    exact hk x s' t' hst'

theorem Agrees.fail {α : Type} (fault : LexFault) (pos : Position) : Agrees R (Lexing.fail fault pos : Lexing α).on :=
  fun _ t hst => ⟨t, rfl, hst⟩

namespace Parallel

/-- A read that agrees is a step that does, since errors are reported in the same place. -/
theorem read (hR : Parallel R) {α : Type} {f : Source → Except ReadError α × Source} (hf : Agrees R f) :
    Agrees R (Lexing.read f).on := by
  intro s t hst
  obtain ⟨t', ht, hst'⟩ := hf s t hst
  unfold Lexing.on Lexing.read
  rw [ht]
  rcases hs : f s with ⟨e | x, s'⟩
  · rw [hs] at hst'
    refine ⟨t', ?_, hst'⟩
    simp only [hR.pos_eq hst']
  · rw [hs] at hst'
    exact ⟨t', rfl, hst'⟩

/-- The places agree. -/
theorem here (hR : Parallel R) : Agrees R Lexing.here.on := by
  intro s t hst
  refine ⟨t, ?_, hst⟩
  unfold Lexing.on Lexing.here
  rw [hR.pos_eq hst]

/-- The ends of tokens agree. -/
theorem finish (hR : Parallel R) (kind : Token.Kind) (value : Token.Value) (start : Position) :
    Agrees R (Lexing.finish kind value start).on := by
  intro s t hst
  refine ⟨t, ?_, hst⟩
  unfold Lexing.on Lexing.finish
  rw [hR.pos_eq hst]

/-- The steps of a token agree. -/
theorem closed (hR : Parallel R) (start : Position) : Lexing.Closed (fun _ m => Agrees R m.on) start where
  bind := Agrees.bind
  nextIf hp := hR.read (hR.nextIf hp)
  takeWhile hp := hR.read (hR.nextIf hp).takeWhile
  finish kind value := hR.finish kind value start
  fail _ := .fail _ start

/-! A string and the white space in front of a token may go over several lines. -/

/-- A string is cut alike. -/
theorem string (hR : Parallel R) (hnext : Agrees R next) (quote : Char) (start : Position) :
    Agrees R (Lexing.string quote start).on := by
  refine .bind (hR.read (hnext.quotedChars quote false)) ?_
  intro cs
  cases cs with
  | none => exact .fail _ _
  | some cs => exact hR.finish _ _ _

/-- So is every token. -/
theorem token (hR : Parallel R) (hnext : ∀ p, Agrees R (Source.nextIf p)) : Agrees R token := by
  refine .bind (hR.read (hnext _).takeWhile) fun _ => .bind hR.here fun start => .bind (hR.read (hnext _)) fun c => ?_
  cases c with
  | none => exact fun _ t hst => ⟨t, rfl, hst⟩
  | some c => exact (hR.closed start).tokenFrom c (hR.string (hnext _) c start)

end Parallel

/-! ## Whole texts -/

/-- The texts are cut alike as a whole. -/
theorem Agrees.lex_eq {s t : Source} (h : Agrees R token) (hst : R s t) : t.lex = s.lex := by
  fun_induction lex s generalizing t with
  | case1 s first s' hs hend =>
    obtain ⟨t', ht, -⟩ := h s t hst
    rw [hs] at ht
    rw [Source.lex_eq, ht]
    simp only [hend, if_true]
  | case2 s first s' hs hend rest =>
    rename_i ih
    obtain ⟨t', ht, hst'⟩ := h s t hst
    rw [hs] at ht hst'
    rw [Source.lex_eq, ht]
    simp only [hend, if_false, ih hst']
    rfl
  | case3 s e s' hs =>
    obtain ⟨t', ht, -⟩ := h s t hst
    rw [hs] at ht
    rw [Source.lex_eq, ht]

/-- They have the same tokens, or the same first fault. -/
theorem Agrees.tokenize_eq {s t : Source} (h : Agrees R token) (hst : R s t) : t.tokenize = s.tokenize := by
  unfold tokenize
  rw [h.lex_eq hst]

/-- They are compiled to the same program, or refused for the same fault. -/
theorem Agrees.compile_eq {s t : Source} (h : Agrees R token) (hst : R s t) (mode : Mode) : compile mode t = compile mode s := by
  unfold compile TokenStream.ofSource
  rw [h.lex_eq hst]

/-! ## Calls one by one -/

/-- What is left of the source after `n` calls for the next token. Calls go on after an error, and after the end. -/
def afterTokens (s : Source) : Nat → Source
  | 0 => s
  | n + 1 => s.token.2.afterTokens n

/-- What the call after `n` calls for the next token gives. -/
def nthToken (s : Source) (n : Nat) : Except LexError Token := (s.afterTokens n).token.1

/-- After any number of calls the sources are still related. -/
theorem Agrees.afterTokens {s t : Source} (h : Agrees R token) (hst : R s t) (n : Nat) : R (s.afterTokens n) (t.afterTokens n) := by
  induction n generalizing s t with
  | zero => exact hst
  | succ n ih =>
    obtain ⟨t', ht, hst'⟩ := h s t hst
    rw [Source.afterTokens, Source.afterTokens, ht]
    exact ih hst'

theorem Agrees.nthToken_eq {s t : Source} (h : Agrees R token) (hst : R s t) (n : Nat) : t.nthToken n = s.nthToken n := by
  obtain ⟨t', ht, -⟩ := h _ _ (h.afterTokens hst n)
  unfold nthToken
  rw [ht]

end

end Source

end C0Stack
