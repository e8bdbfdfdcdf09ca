import C0Stack.Proofs.Token.Cutting
import C0Stack.Proofs.Token.Steps

/-!
# Taking from a text in memory

A text that is held in memory can always be read. Whatever a step of the lexer does, it takes characters off the front of the text, and
it moves the place over these characters and no further (`Source.Onward`). A token that cannot be cut is refused where it starts. So
every place that the lexer hands out is a place of the text (`Source.hasPlace_lex`).
-/

namespace C0Stack

namespace Source

/-- The second source is what is left of the first one, a text in memory, once characters were taken off its front. -/
def Onward (s s' : Source) : Prop := ∃ taken, s.buffer = taken ++ s'.buffer ∧ s'.pending = [] ∧ s'.pos = s.pos.advanceAll taken

theorem Onward.refl {s : Source} (h : s.pending = []) : Onward s s := ⟨[], rfl, h, rfl⟩

/-- What is taken in two steps is taken. -/
theorem Onward.trans {s s' s'' : Source} (h : Onward s s') (h' : Onward s' s'') : Onward s s'' := by
  obtain ⟨taken, hbuffer, -, hpos⟩ := h
  obtain ⟨taken', hbuffer', hpending', hpos'⟩ := h'
  refine ⟨taken ++ taken', ?_, hpending', ?_⟩
  · rw [hbuffer, hbuffer', List.append_assoc]
  · rw [hpos', hpos, Position.advanceAll_append]

theorem Onward.pending_eq {s s' : Source} (h : Onward s s') : s'.pending = [] := by
  obtain ⟨-, -, hpending, -⟩ := h
  exact hpending

/-- The place where the text ends does not change. -/
theorem Onward.advanceAll_eq {s s' : Source} (h : Onward s s') : s'.pos.advanceAll s'.buffer = s.pos.advanceAll s.buffer := by
  obtain ⟨taken, hbuffer, -, hpos⟩ := h
  rw [hbuffer, hpos, Position.advanceAll_append]

/-- What is left is the end of the text. -/
theorem Onward.suffix {s s' : Source} (h : Onward s s') : s'.buffer <:+ s.buffer := by
  obtain ⟨taken, hbuffer, -⟩ := h
  exact ⟨taken, hbuffer.symm⟩

/-- A read from memory gives an answer and takes characters off the front. -/
def TakesOff {α : Type} (f : Source → Except ReadError α × Source) : Prop :=
  ∀ s, s.pending = [] → ∃ x s', f s = (.ok x, s') ∧ Onward s s'

/-- The next character is taken off the front. -/
theorem takesOff_nextIf (p : Char → Bool) : TakesOff (nextIf p) := by
  rintro ⟨cs, pending, pos⟩ (rfl : pending = [])
  cases cs with
  | nil => exact ⟨none, _, nextIf_nil p pos, .refl rfl⟩
  | cons c cs =>
    rw [nextIf_cons]
    by_cases hc : p c = true
    · rw [if_pos hc]
      exact ⟨some c, _, rfl, [c], rfl, rfl, rfl⟩
    · rw [if_neg hc]
      exact ⟨none, _, rfl, .refl rfl⟩

/-- A run of characters is taken off the front. -/
theorem takesOff_takeWhile (p : Char → Bool) : TakesOff (takeWhile p) := by
  rintro ⟨cs, pending, pos⟩ (rfl : pending = [])
  exact ⟨_, _, takeWhile_eq p cs pos, cs.takeWhile p, List.takeWhile_append_dropWhile.symm, rfl, rfl⟩

/-- The characters of a string are taken off the front. -/
theorem takesOff_quotedChars (quote : Char) (escaped : Bool) : TakesOff (Lexing.quotedChars quote escaped) := by
  rintro ⟨cs, pending, pos⟩ (rfl : pending = [])
  induction cs generalizing escaped pos with
  | nil => exact ⟨none, _, Lexing.quotedChars_nil quote escaped pos, .refl rfl⟩
  | cons c cs ih =>
    have hfirst : Onward ⟨c :: cs, [], pos⟩ ⟨cs, [], pos.advance c⟩ := ⟨[c], rfl, rfl, rfl⟩
    rw [Lexing.quotedChars_cons]
    by_cases hc : c = quote ∧ escaped = false
    · rw [if_pos hc]
      exact ⟨some [], _, rfl, hfirst⟩
    · rw [if_neg hc]
      obtain ⟨qs, s', hs', honward⟩ := ih (c == '\\' && !escaped) (pos.advance c)
      rw [hs']
      cases qs with
      | none => exact ⟨none, s', rfl, hfirst.trans honward⟩
      | some qs => exact ⟨some (c :: qs), s', rfl, hfirst.trans honward⟩

end Source

namespace Lexing

variable {P : LexError → Prop}

/-- From a text in memory the step takes characters off the front, and if it fails then with an error of which `P` holds. -/
def Takes (P : LexError → Prop) {α : Type} (m : Lexing α) : Prop :=
  ∀ s : Source, s.pending = [] → s.Onward (m.on s).2 ∧ ∀ e, (m.on s).1 = .error e → P e

/-- Steps in sequence take characters off the front, and fail as one of them does. -/
theorem Takes.bind {α β : Type} {m : Lexing α} {k : α → Lexing β} (hm : Takes P m) (hk : ∀ x, Takes P (k x)) :
    Takes P (m >>= k) := by
  intro s hs
  obtain ⟨honward, herror⟩ := hm s hs
  rw [on_bind]
  rcases hrun : m.on s with ⟨e | x, s'⟩
  · rw [hrun] at honward herror
    refine ⟨honward, ?_⟩
    rintro _ ⟨⟩
    exact herror e rfl
  · rw [hrun] at honward
    obtain ⟨honward', herror'⟩ := hk x s' honward.pending_eq
    exact ⟨honward.trans honward', herror'⟩

/-- A read from memory does not fail. -/
theorem Takes.read {α : Type} {f : Source → Except ReadError α × Source} (hf : Source.TakesOff f) : Takes P (Lexing.read f) := by
  intro s hs
  obtain ⟨x, s', hread, honward⟩ := hf s hs
  unfold on Lexing.read
  rw [hread]
  refine ⟨honward, ?_⟩
  intro e he
  cases he

/-- A fault is one of those that are allowed. -/
theorem Takes.fail {α : Type} {fault : LexFault} {pos : Position} (h : P ⟨fault, pos⟩) :
    Takes P (Lexing.fail fault pos : Lexing α) := by
  intro s hs
  refine ⟨.refl hs, ?_⟩
  rintro e ⟨⟩
  exact h

/-- The end of a token takes nothing. -/
theorem Takes.finish (kind : Token.Kind) (value : Token.Value) (start : Position) : Takes P (Lexing.finish kind value start) := by
  intro s hs
  refine ⟨.refl hs, ?_⟩
  intro e he
  cases he

/-- Reads, ends of tokens and faults at the start of a token take characters off the front. -/
theorem closed_takes {start : Position} (hP : ∀ fault, fault ≠ .unterminatedString → P ⟨fault, start⟩) :
    Closed (fun _ m => Takes P m) start where
  bind := Takes.bind
  nextIf _ := .read (Source.takesOff_nextIf _)
  takeWhile _ := .read (Source.takesOff_takeWhile _)
  finish kind value := .finish kind value start
  fail hfault := .fail (hP _ hfault)

/-- A string is taken off the front, or is not closed. -/
theorem Takes.string {start : Position} (h : P ⟨.unterminatedString, start⟩) (quote : Char) :
    Takes P (Lexing.string quote start) := by
  refine .bind (.read (Source.takesOff_quotedChars quote false)) ?_
  intro cs
  cases cs with
  | none => exact .fail h
  | some cs => exact .finish _ _ _

/-- A token that cannot be cut is refused where it starts. -/
theorem Takes.tokenFrom (first : Char) (start : Position) : Takes (fun e => e.pos = start) (Lexing.tokenFrom first start) := by
  have hclosed : Closed (fun _ m => Takes (fun e => e.pos = start) m) start := closed_takes fun _ _ => rfl
  exact hclosed.tokenFrom first (.string (P := fun e => e.pos = start) rfl first)

end Lexing

namespace Source

/-- The place is one of those in what is left of the text, its end included. -/
def HasPlace (s : Source) (p : Position) : Prop := ∃ taken, taken <+: s.buffer ∧ p = s.pos.advanceAll taken

/-- The places in what is left of a text are places of the text. -/
theorem Onward.hasPlace {s s' : Source} {p : Position} (h : Onward s s') (hp : s'.HasPlace p) : s.HasPlace p := by
  obtain ⟨taken, hbuffer, -, hpos⟩ := h
  obtain ⟨taken', hprefix, rfl⟩ := hp
  refine ⟨taken ++ taken', ?_, ?_⟩
  · rw [hbuffer]
    exact (List.prefix_append_right_inj taken).2 hprefix
  · rw [hpos, Position.advanceAll_append]

/-- One token, or one fault, from a text in memory. -/
theorem onward_token {s : Source} (hs : s.pending = []) :
    s.Onward s.token.2 ∧ (∀ t, s.token.1 = .ok t → s.HasPlace t.start) ∧ ∀ e, s.token.1 = .error e → s.HasPlace e.pos := by
  obtain ⟨cs, pending, pos⟩ := s
  obtain rfl : pending = [] := hs
  obtain hcs | ⟨bs, c, rest, rfl, hbs, hc⟩ := blank_cases cs
  · rw [token_of_blank hcs]
    refine ⟨⟨cs, (List.append_nil cs).symm, rfl, rfl⟩, ?_, ?_⟩
    · rintro t ⟨⟩
      exact ⟨cs, List.prefix_refl cs, rfl⟩
    · intro e he
      cases he
  · rw [token_of_cons hbs hc]
    have hplace : HasPlace ⟨bs ++ c :: rest, [], pos⟩ (pos.advanceAll bs) := ⟨bs, List.prefix_append bs _, rfl⟩
    obtain ⟨honward, herror⟩ := Lexing.Takes.tokenFrom c (pos.advanceAll bs) ⟨rest, [], (pos.advanceAll bs).advance c⟩ rfl
    have hfirst : Onward ⟨bs ++ c :: rest, [], pos⟩ ⟨rest, [], (pos.advanceAll bs).advance c⟩ := by
      refine ⟨bs ++ [c], ?_, rfl, ?_⟩
      · rw [List.append_assoc, List.singleton_append]
      · rw [Position.advanceAll_append]
        rfl
    refine ⟨hfirst.trans honward, ?_, ?_⟩
    · intro t ht
      obtain ⟨lex, rest', kind, value, -, -, hread⟩ | ⟨⟨e, s', hread⟩, -⟩ :=
        Lexical.settles_tokenFrom c rest (pos.advanceAll bs)
      · rw [hread] at ht
        cases ht
        exact hplace
      · rw [hread] at ht
        cases ht
    · intro e he
      rw [herror e he]
      exact hplace

/-- The places of the tokens, and the place where the text ends or cannot be cut any further, are places of the text. -/
theorem hasPlace_lex (s : Source) (hs : s.pending = []) :
    (∀ t ∈ s.lex.tokens, s.HasPlace t.start) ∧ (∀ p, s.lex.ending = .ok p → s.HasPlace p) ∧
      ∀ e, s.lex.ending = .error e → s.HasPlace e.pos := by
  fun_induction lex s with
  | case1 s t s' h hend =>
    obtain ⟨-, htoken, -⟩ := onward_token hs
    rw [h] at htoken
    refine ⟨List.forall_mem_nil _, ?_, ?_⟩
    · rintro p ⟨⟩
      exact htoken t rfl
    · intro e he
      cases he
  | case2 s t s' h hend rest ih =>
    obtain ⟨honward, htoken, -⟩ := onward_token hs
    rw [h] at honward htoken
    obtain ⟨hrest, hdone, hfault⟩ := ih honward.pending_eq
    refine ⟨List.forall_mem_cons.2 ⟨htoken t rfl, ?_⟩, ?_, ?_⟩
    · intro t' ht'
      exact honward.hasPlace (hrest t' ht')
    · intro p hp
      exact honward.hasPlace (hdone p hp)
    · intro e he
      exact honward.hasPlace (hfault e he)
  | case3 s e s' h =>
    obtain ⟨-, -, herror⟩ := onward_token hs
    rw [h] at herror
    refine ⟨List.forall_mem_nil _, ?_, ?_⟩
    · intro p hp
      cases hp
    · rintro e ⟨⟩
      exact herror e rfl

end Source

end C0Stack
