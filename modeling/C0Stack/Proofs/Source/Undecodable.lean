import Mathlib.Data.List.SplitBy
import C0Stack.Proofs.Source.Decoding
import C0Stack.Proofs.Source.Lines
import C0Stack.Proofs.Token.Taking

/-!
# Lines that are not UTF-8

Bytes whose first lines can be decoded are read like the text of these lines, until the text has been used up: where the reader would
then find the end of the text, or a string that does not end, it comes upon the line that cannot be decoded (`reading_undecodable`).
It does so no earlier, because a token other than a string leaves the line feed behind it alone, and so never looks into the next line.
Only bytes that are those of a text are therefore read to their end (`Source.exists_text_of_tokenize`).
-/

namespace C0Stack

namespace Source

open Text (WholeLines)

/-! ## Reads that come upon the line -/

/-- The first line of the bytes is not UTF-8. -/
def Undecodable (tail : List UInt8) : Prop := decode? (splitLine tail).1 = none

variable {tail : List UInt8} {s t : Source}

/-- A line that is not UTF-8 has bytes. -/
theorem Undecodable.ne_nil (h : Undecodable tail) : tail ≠ [] := by
  rintro rfl
  cases (decode?_encode []).symm.trans h

/-- Where the text in memory has come to its end, the bytes cannot be read on. -/
theorem Ahead.nextIf_of_nil (htail : Undecodable tail) {pos : Position} (h : Ahead tail s ⟨[], [], pos⟩) (p : Char → Bool) :
    ∃ s', s.nextIf p = (.error .notUtf8, s') ∧ s'.pos = pos := by
  obtain ⟨cs, hpending, heq⟩ := h
  obtain ⟨buffer, pending, pos'⟩ := s
  simp only [mk.injEq, List.nil_eq, List.append_eq_nil_iff, true_and] at heq
  obtain ⟨⟨rfl, rfl⟩, rfl⟩ := heq
  obtain rfl : pending = tail := hpending
  refine ⟨⟨[], (splitLine pending).2, pos⟩, ?_, rfl⟩
  unfold Source.nextIf
  rw [fill_nil htail.ne_nil, htail]

/-- As long as there are lines in memory, a look at the next character is answered as there. -/
theorem Ahead.nextIf_eq (h : Ahead tail s t) (hlines : WholeLines t.buffer) (hne : t.buffer ≠ []) {p : Char → Bool}
    {r : Except ReadError (Option Char)} {t' : Source} (ht : t.nextIf p = (r, t')) :
    ∃ s', s.nextIf p = (r, s') ∧ Ahead tail s' t' := by
  obtain ⟨t'', ht', hahead, -⟩ := h.nextIf (.inr (hlines.mem hne)) p
  cases ht.symm.trans ht'
  exact ⟨_, rfl, hahead⟩

/-- A character in front of a run. -/
theorem takeWhile_of_take {p : Char → Bool} {s s' s'' : Source} {c : Char} {r : Except ReadError (List Char)}
    (h : s.nextIf p = (.ok (some c), s')) (h' : s'.takeWhile p = (r, s'')) : s.takeWhile p = (r.map (c :: ·), s'') := by
  rw [takeWhile, h]
  dsimp only
  rw [h']
  cases r <;> rfl

/-- White space that goes on to the end of the text goes on into the line that cannot be read. -/
theorem Ahead.takeWhile_of_all (htail : Undecodable tail) {p : Char → Bool} {cs : List Char} {pos : Position}
    (h : Ahead tail s ⟨cs, [], pos⟩) (hlines : WholeLines cs) (hcs : ∀ c ∈ cs, p c = true) :
    ∃ s', s.takeWhile p = (.error .notUtf8, s') ∧ s'.pos = pos.advanceAll cs := by
  induction cs generalizing s pos with
  | nil =>
    obtain ⟨s', hs, hpos⟩ := h.nextIf_of_nil htail p
    refine ⟨s', ?_, hpos⟩
    rw [Source.takeWhile, hs]
  | cons c cs ih =>
    have ht : Source.nextIf p ⟨c :: cs, [], pos⟩ = (.ok (some c), ⟨cs, [], pos.advance c⟩) := by
      rw [nextIf_cons, if_pos (hcs c (by simp))]
    obtain ⟨s', hs, hahead⟩ := h.nextIf_eq hlines (List.cons_ne_nil c cs) ht
    obtain ⟨s'', hs', hpos⟩ := ih hahead (hlines.suffix (List.suffix_cons c cs)) (fun d hd => hcs d (List.mem_cons_of_mem c hd))
    exact ⟨s'', takeWhile_of_take hs hs', hpos⟩

/-- Other white space is taken as in memory. -/
theorem Ahead.takeWhile_append {p : Char → Bool} {bs rest : List Char} {c : Char} {pos : Position}
    (h : Ahead tail s ⟨bs ++ c :: rest, [], pos⟩) (hlines : WholeLines (bs ++ c :: rest)) (hbs : ∀ b ∈ bs, p b = true)
    (hc : p c = false) : ∃ s', s.takeWhile p = (.ok bs, s') ∧ Ahead tail s' ⟨c :: rest, [], pos.advanceAll bs⟩ := by
  induction bs generalizing s pos with
  | nil =>
    have ht : Source.nextIf p ⟨c :: rest, [], pos⟩ = (.ok none, ⟨c :: rest, [], pos⟩) := by rw [nextIf_cons, if_neg (by simp [hc])]
    obtain ⟨s', hs, hahead⟩ := h.nextIf_eq hlines (List.cons_ne_nil c rest) ht
    refine ⟨s', ?_, hahead⟩
    rw [Source.takeWhile, hs]
  | cons b bs ih =>
    have ht : Source.nextIf p ⟨b :: (bs ++ c :: rest), [], pos⟩ = (.ok (some b), ⟨bs ++ c :: rest, [], pos.advance b⟩) := by
      rw [nextIf_cons, if_pos (hbs b (by simp))]
    obtain ⟨s', hs, hahead⟩ := h.nextIf_eq hlines (List.cons_ne_nil b _) ht
    obtain ⟨s'', hs', hahead'⟩ := ih hahead (hlines.suffix (List.suffix_cons b _)) (fun d hd => hbs d (List.mem_cons_of_mem b hd))
    exact ⟨s'', takeWhile_of_take hs hs', hahead'⟩

/-- A character in front of those of a string. -/
theorem quotedChars_of_take {quote : Char} {escaped : Bool} {s s' s'' : Source} {c : Char}
    {r : Except ReadError (Option (List Char))} (h : s.next = (.ok (some c), s')) (hc : ¬ (c = quote ∧ escaped = false))
    (h' : Lexing.quotedChars quote (c == '\\' && !escaped) s' = (r, s'')) :
    Lexing.quotedChars quote escaped s = (r.map (Option.map (c :: ·)), s'') := by
  rw [Lexing.quotedChars, h]
  dsimp only
  rw [if_neg hc, h']
  rcases r with e | _ | qs <;> rfl

/-- A string that ends in the text is read as in memory, and one that does not end there goes on into the line that cannot be read. -/
theorem Ahead.quotedChars (htail : Undecodable tail) {cs : List Char} {pos : Position} (h : Ahead tail s ⟨cs, [], pos⟩)
    (hlines : WholeLines cs) (quote : Char) (escaped : Bool) :
    (∃ qs s' t', Lexing.quotedChars quote escaped s = (.ok (some qs), s') ∧
      Lexing.quotedChars quote escaped ⟨cs, [], pos⟩ = (.ok (some qs), t') ∧ Ahead tail s' t') ∨
    ∃ s' t', Lexing.quotedChars quote escaped s = (.error .notUtf8, s') ∧
      Lexing.quotedChars quote escaped ⟨cs, [], pos⟩ = (.ok none, t') ∧ s'.pos = pos.advanceAll cs := by
  induction cs generalizing s escaped pos with
  | nil =>
    obtain ⟨s', hs, hpos⟩ := h.nextIf_of_nil htail fun _ => true
    refine .inr ⟨s', _, ?_, Lexing.quotedChars_nil quote escaped pos, hpos⟩
    rw [Lexing.quotedChars, next, hs]
  | cons c cs ih =>
    have ht : next ⟨c :: cs, [], pos⟩ = (.ok (some c), ⟨cs, [], pos.advance c⟩) := rfl
    obtain ⟨s', hs, hahead⟩ := h.nextIf_eq hlines (List.cons_ne_nil c cs) ht
    by_cases hc : c = quote ∧ escaped = false
    · refine .inl ⟨[], s', ⟨cs, [], pos.advance c⟩, ?_, ?_, hahead⟩
      · rw [Lexing.quotedChars, next, hs]
        dsimp only
        rw [if_pos hc]
      · rw [Lexing.quotedChars_cons, if_pos hc]
    · rcases ih hahead (hlines.suffix (List.suffix_cons c cs)) (c == '\\' && !escaped) with
        ⟨qs, s'', t'', hs', ht', hahead'⟩ | ⟨s'', t'', hs', ht', hpos⟩
      · exact .inl ⟨c :: qs, s'', t'', quotedChars_of_take hs hc hs', quotedChars_of_take ht hc ht', hahead'⟩
      · exact .inr ⟨s'', t'', quotedChars_of_take hs hc hs', quotedChars_of_take ht hc ht', hpos⟩

/-! ## Tokens -/

/-- The fault of a line that cannot be decoded. -/
def undecodableAt (pos : Position) : LexError := ⟨.unreadable ReadError.notUtf8.message, pos⟩

/-- A call for the next token finds that the text is used up: it has come to the end, or a string does not end. -/
def RunsOut : Except LexError Token → Prop
  | .ok t => t.kind = .endOfFile
  | .error e => e.fault = .unterminatedString

/-- White space that cannot be read is a fault in place of a token. -/
theorem token_of_takeWhile_error {s s' : Source} {e : ReadError} (h : s.takeWhile Text.isBlank = (.error e, s')) :
    s.token = (.error ⟨.unreadable e.message, s'.pos⟩, s') := by
  unfold token Lexing.token
  rw [Lexing.on_bind, Lexing.on, Lexing.read, h]

/-- Behind white space comes the token that starts with the next character. -/
theorem token_of_takeWhile {s s' s'' : Source} {bs : List Char} {c : Char} (h : s.takeWhile Text.isBlank = (.ok bs, s'))
    (hnext : s'.next = (.ok (some c), s'')) : s.token = (Lexing.tokenFrom c s'.pos).on s'' := by
  unfold token Lexing.token
  rw [Lexing.on_bind, Lexing.on, Lexing.read, h]
  change Lexing.on (Lexing.read next >>= _) s' = _
  rw [Lexing.on_bind, Lexing.on, Lexing.read, hnext]

/-- A string is its characters up to the closing quote. -/
theorem on_string (quote : Char) (start : Position) (s : Source) :
    (Lexing.string quote start).on s =
      match Lexing.quotedChars quote false s with
      | (.ok (some qs), s') => (.ok ⟨.string, .text (String.ofList (Lexing.unescape qs)), start, s'.pos⟩, s')
      | (.ok none, s') => (.error ⟨.unterminatedString, start⟩, s')
      | (.error e, s') => (.error ⟨.unreadable e.message, s'.pos⟩, s') := by
  unfold Lexing.string
  rw [Lexing.on_bind, Lexing.on, Lexing.read]
  rcases Lexing.quotedChars quote false s with ⟨e | _ | qs, s'⟩ <;> rfl

/-- The rest of a token: it is cut alike, or a string does not end in the text and comes upon the line that cannot be read. -/
theorem Ahead.tokenFrom (htail : Undecodable tail) {cs : List Char} {pos : Position} (h : Ahead tail s ⟨cs, [], pos⟩)
    (hlines : WholeLines cs) (hline : '\n' ∈ cs) (first : Char) (start : Position) :
    (∃ r s' t', (Lexing.tokenFrom first start).on s = (r, s') ∧ (Lexing.tokenFrom first start).on ⟨cs, [], pos⟩ = (r, t') ∧
      Ahead tail s' t' ∧ ∀ e, r = .error e → e.fault ≠ .unterminatedString) ∨
    ∃ s' t', (Lexing.tokenFrom first start).on s = (.error (undecodableAt (pos.advanceAll cs)), s') ∧
      (Lexing.tokenFrom first start).on ⟨cs, [], pos⟩ = (.error ⟨.unterminatedString, start⟩, t') := by
  -- All tokens but strings end in the line in which they start.
  have hagrees : Lexing.Closed (fun _ m => Agrees (fun s t => Ahead tail s t ∧ '\n' ∈ t.buffer) m.on) start :=
    parallel_ahead.closed start
  have htakes : Lexing.Closed (fun _ m => m.Takes fun e => e.fault ≠ .unterminatedString) start :=
    Lexing.closed_takes fun _ hfault => hfault
  have hinLine : ∀ {m : Lexing Token}, Agrees (fun s t => Ahead tail s t ∧ '\n' ∈ t.buffer) m.on →
      m.Takes (fun e => e.fault ≠ .unterminatedString) → ∃ r s' t', m.on s = (r, s') ∧ m.on ⟨cs, [], pos⟩ = (r, t') ∧
        Ahead tail s' t' ∧ ∀ e, r = .error e → e.fault ≠ .unterminatedString := by
    intro m hm hm'
    obtain ⟨t', ht, hahead, -⟩ := hm s ⟨cs, [], pos⟩ ⟨h, hline⟩
    obtain ⟨-, herror⟩ := hm' ⟨cs, [], pos⟩ rfl
    rw [ht] at herror
    exact ⟨_, _, t', rfl, ht, hahead, herror⟩
  unfold Lexing.tokenFrom
  split
  · exact .inl (hinLine (hagrees.number first) (htakes.number first))
  · split
    · exact .inl (hinLine (hagrees.word first) (htakes.word first))
    · split
      · rw [on_string, on_string]
        rcases h.quotedChars htail hlines first false with
          ⟨qs, s', t', hs, ht, hahead⟩ | ⟨s', t', hs, ht, hpos⟩
        · rw [hs, ht]
          dsimp only
          rw [hahead.pos_eq]
          refine .inl ⟨_, s', t', rfl, rfl, hahead, ?_⟩
          intro e he
          cases he
        · rw [hs, ht]
          dsimp only
          rw [hpos]
          exact .inr ⟨s', t', rfl, rfl⟩
      · exact .inl (hinLine (hagrees.symbol first) (htakes.symbol first))

/-- One call for the next token: it finds that the text is used up, and comes upon the line that cannot be read; or it gives what it gives
in memory. -/
theorem Ahead.token (htail : Undecodable tail) (h : Ahead tail s t) (hlines : WholeLines t.buffer) :
    (RunsOut t.token.1 ∧ s.token.1 = .error (undecodableAt (t.pos.advanceAll t.buffer))) ∨
    (¬ RunsOut t.token.1 ∧ s.token.1 = t.token.1 ∧ Ahead tail s.token.2 t.token.2 ∧
      t.token.2.buffer.length < t.buffer.length) := by
  obtain ⟨cs, pending, pos⟩ := t
  obtain rfl : pending = [] := h.pending_eq
  obtain hcs | ⟨bs, c, rest, rfl, hbs, hc⟩ := blank_cases cs
  · obtain ⟨s', hs, hpos⟩ := h.takeWhile_of_all htail hlines hcs
    rw [token_of_blank hcs, token_of_takeWhile_error hs, hpos]
    exact .inl ⟨rfl, rfl⟩
  · obtain ⟨s₁, hs₁, hahead₁⟩ := h.takeWhile_append hlines hbs hc
    have hlines' : WholeLines (c :: rest) := hlines.suffix (List.suffix_append bs _)
    have hfeed : c ≠ '\n' := by
      rintro rfl
      cases hc
    obtain ⟨s₂, hs₂, hahead₂⟩ := hahead₁.nextIf_eq hlines' (List.cons_ne_nil c rest) (p := fun _ => true) rfl
    have hpos : s₁.pos = pos.advanceAll bs := hahead₁.pos_eq.symm
    rw [token_of_cons hbs hc, token_of_takeWhile hs₁ hs₂, hpos]
    have hshort := (Lexing.Takes.tokenFrom c (pos.advanceAll bs) ⟨rest, [], (pos.advanceAll bs).advance c⟩ rfl).1.suffix.length_le
    have hsettles := Lexical.settles_tokenFrom c rest (pos.advanceAll bs)
    rcases hahead₂.tokenFrom htail (hlines'.suffix (List.suffix_cons c rest)) (hlines'.mem_tail hfeed) c (pos.advanceAll bs) with
      ⟨r, s₃, t', hs₃, ht, hahead₃, hfault⟩ | ⟨s₃, t', hs₃, ht⟩
    · rw [ht] at hshort hsettles
      rw [hs₃, ht]
      refine .inr ⟨?_, rfl, hahead₃, ?_⟩
      · rcases hsettles with ⟨lex, rest', kind, value, -, hcut, hread⟩ | ⟨⟨e, u, hread⟩, -⟩
        · cases hread
          exact hcut.lexeme.kind_ne
        · cases hread
          exact hfault e rfl
      · simp only [List.length_append, List.length_cons] at hshort ⊢
        omega
    · rw [hs₃, ht]
      refine .inl ⟨rfl, ?_⟩
      rw [Position.advanceAll_append]
      rfl

/-! ## Call by call -/

/-- The first source gives what the second one gives, call by call, until a call to the second one finds that its text is used up. Then
the first one gives the error. -/
inductive Follows (e : LexError) : Source → Source → Prop
  | stop {s t : Source} : RunsOut t.token.1 → s.token.1 = .error e → Follows e s t
  | step {s t : Source} : ¬ RunsOut t.token.1 → s.token.1 = t.token.1 → Follows e s.token.2 t.token.2 → Follows e s t

/-- So the bytes are read as in memory until the text is used up. -/
theorem Ahead.follows (htail : Undecodable tail) (h : Ahead tail s t) (hlines : WholeLines t.buffer) :
    Follows (undecodableAt (t.pos.advanceAll t.buffer)) s t := by
  induction hlen : t.buffer.length using Nat.strong_induction_on generalizing s t with
  | h n ih =>
    subst hlen
    rcases h.token htail hlines with ⟨hout, hs⟩ | ⟨hout, hs, hahead, hshort⟩
    · exact .stop hout hs
    · obtain ⟨honward, -⟩ := onward_token h.pending_eq
      have hrest := ih _ hshort hahead (hlines.suffix honward.suffix) rfl
      rw [honward.advanceAll_eq] at hrest
      exact .step hout hs hrest

/-- A fault behind a token is a fault of the whole text. -/
theorem tokenize_eq_error_iff {s s' : Source} {first : Token} (h : s.token = (.ok first, s')) (hend : first.kind ≠ .endOfFile)
    {e : LexError} : s.tokenize = .error e ↔ s'.tokenize = .error e := by
  rw [tokenize_of_token h hend]
  cases s'.tokenize with
  | error e' => exact Iff.rfl
  | ok ts => exact ⟨nofun, nofun⟩

section

variable {e : LexError}

/-- Told by numbers: up to some call both give the same, and that call comes upon the line. -/
theorem Follows.nthToken (h : Follows e s t) :
    ∃ n, (∀ i < n, s.nthToken i = t.nthToken i ∧ ¬ RunsOut (t.nthToken i)) ∧ RunsOut (t.nthToken n) ∧ s.nthToken n = .error e := by
  induction h with
  | stop hout hs => exact ⟨0, fun i hi => absurd hi (Nat.not_lt_zero i), hout, hs⟩
  | step hout hs _ ih =>
    obtain ⟨n, hbefore, hout', hs'⟩ := ih
    refine ⟨n + 1, ?_, hout', hs'⟩
    intro i hi
    cases i with
    | zero => exact ⟨hs, hout⟩
    | succ i => exact hbefore i (Nat.lt_of_succ_lt_succ hi)

/-- The fault of the text comes first, unless it is a string that does not end. -/
theorem Follows.tokenize (h : Follows e s t) :
    (∀ e', t.tokenize = .error e' → e'.fault ≠ .unterminatedString → s.tokenize = .error e') ∧
      ((∀ e', t.tokenize = .error e' → e'.fault = .unterminatedString) → s.tokenize = .error e) := by
  induction h with
  | @stop s t hout hs =>
    refine ⟨?_, fun _ => tokenize_of_error (Prod.ext hs rfl)⟩
    intro e' he' hfault
    rcases ht : t.token with ⟨e'' | first, t'⟩ <;> rw [ht] at hout
    · rw [tokenize_of_error ht] at he'
      cases he'
      exact absurd hout hfault
    · rw [Source.tokenize, lex_eq, ht] at he'
      simp only [show first.kind = .endOfFile from hout, if_true] at he'
      cases he'
  | @step s t hout hs _ ih =>
    rcases ht : t.token with ⟨e' | first, t'⟩ <;> rw [ht] at hout hs ih
    · have hs' : s.token = (.error e', s.token.2) := Prod.ext hs rfl
      rw [tokenize_of_error ht, tokenize_of_error hs']
      exact ⟨fun _ he' _ => he', fun hall => absurd (hall e' rfl) hout⟩
    · have hs' : s.token = (.ok first, s.token.2) := Prod.ext hs rfl
      simp only [tokenize_eq_error_iff ht hout, tokenize_eq_error_iff hs' hout]
      exact ih

end

/-! ## The lines of the bytes -/

/-- The lines of the bytes, each with the line feed that ends it. -/
def lines (bytes : List UInt8) : List (List UInt8) := bytes.splitBy fun b _ => b != 10

/-- The first line has no line feed but at its end, and there it has one unless it is the last. -/
theorem splitLine_cases (bytes : List UInt8) :
    ∃ body ending, 10 ∉ body ∧ (splitLine bytes).1 = body ++ ending ∧ bytes = body ++ ending ++ (splitLine bytes).2 ∧
      (ending = [10] ∨ ending = [] ∧ (splitLine bytes).2 = []) := by
  induction bytes with
  | nil => exact ⟨[], [], List.not_mem_nil, rfl, rfl, .inr ⟨rfl, rfl⟩⟩
  | cons b bytes ih =>
    rw [splitLine_cons]
    by_cases hb : b = 10
    · subst hb
      exact ⟨[], [10], List.not_mem_nil, rfl, rfl, .inl rfl⟩
    · obtain ⟨body, ending, hbody, hline, hbytes, hending⟩ := ih
      rw [if_neg hb]
      refine ⟨b :: body, ending, ?_, congrArg (b :: ·) hline, congrArg (b :: ·) hbytes, hending⟩
      exact fun h => (List.mem_cons.1 h).elim (Ne.symm hb) hbody

/-- The lines of some bytes are the first one and those of the rest. -/
theorem lines_eq {bytes : List UInt8} (hne : bytes ≠ []) : lines bytes = (splitLine bytes).1 :: lines (splitLine bytes).2 := by
  obtain ⟨body, ending, hbody, hline, hbytes, hending⟩ := splitLine_cases bytes
  have hlineNe : body ++ ending ≠ [] := by
    obtain ⟨b, bytes, rfl⟩ := List.exists_cons_of_ne_nil hne
    rw [← hline]
    exact splitLine_cons_ne_nil b bytes
  have hbody' : ∀ b ∈ body, (b != 10) = true := by
    rintro b hb
    refine bne_iff_ne.2 ?_
    rintro rfl
    exact hbody hb
  have hchain : (body ++ ending).IsChain fun b _ => (b != 10) = true := by
    refine List.Pairwise.isChain (List.pairwise_append.2 ⟨List.pairwise_of_forall_mem_list fun b hb _ _ => hbody' b hb, ?_, ?_⟩)
    · rcases hending with rfl | ⟨rfl, -⟩
      · exact List.pairwise_singleton _ _
      · exact .nil
    · exact fun b hb _ _ => hbody' b hb
  have hcut : ∀ b ∈ (body ++ ending).getLast?, ∀ b' ∈ (splitLine bytes).2.head?, (b != 10) = false := by
    intro b hb b' hb'
    rcases hending with rfl | ⟨-, hnil⟩
    · rw [List.getLast?_append_of_ne_nil body (List.cons_ne_nil 10 [])] at hb
      cases hb
      rfl
    · rw [hnil] at hb'
      cases hb'
  rw [hline, lines, lines]
  nth_rewrite 1 [hbytes]
  rw [List.splitBy_append hcut, List.splitBy_of_isChain hlineNe hchain]
  rfl

/-- A text has a line feed exactly if its bytes have. -/
theorem mem_encode {cs : List Char} : 10 ∈ encode cs ↔ '\n' ∈ cs := by
  simp only [encode, List.mem_flatMap, mem_utf8EncodeChar, exists_eq_right]

/-- What is decoded from a line has one line feed, at its end. -/
theorem exists_line {body : List UInt8} {cs : List Char} (hbody : 10 ∉ body) (h : decode? (body ++ [10]) = some cs) :
    ∃ ds, cs = ds ++ ['\n'] ∧ '\n' ∉ ds := by
  have hencode := decode?_eq_some_iff.1 h
  have hmem : '\n' ∈ cs := mem_encode.1 (hencode ▸ List.mem_append_right body (List.mem_singleton_self 10))
  obtain ⟨ds, es, rfl, hds⟩ := List.eq_append_cons_of_mem hmem
  refine ⟨ds, ?_, hds⟩
  -- Both sides have their first line feed behind the same bytes, and nothing comes behind it in the line.
  have hsplit := congrArg splitLine hencode
  rw [encode_append, encode_cons, splitLine_append hbody, splitLine_append (mt mem_encode.1 hds)] at hsplit
  have hes : encode es = [] := (Prod.ext_iff.1 hsplit).2.symm
  by_contra hne
  refine encode_ne_nil ?_ hes
  rintro rfl
  exact hne rfl

/-- The lines that can be decoded make up a text, and behind its bytes comes the line that cannot. -/
theorem exists_text {bytes bad : List UInt8} {good rest : List (List UInt8)} {css : List (List Char)}
    (hlines : lines bytes = good ++ bad :: rest) (hgood : good.mapM decode? = some css) :
    ∃ tail, bytes = encode css.flatten ++ tail ∧ (splitLine tail).1 = bad ∧ WholeLines css.flatten ∧
      css.flatten.count '\n' = good.length := by
  induction good generalizing bytes css with
  | nil =>
    cases hgood
    have hne : bytes ≠ [] := by
      rintro rfl
      cases hlines
    rw [lines_eq hne] at hlines
    exact ⟨bytes, rfl, (List.cons.inj hlines).1, nofun, rfl⟩
  | cons line good ih =>
    have hne : bytes ≠ [] := by
      rintro rfl
      cases hlines
    rw [lines_eq hne, List.cons_append] at hlines
    obtain ⟨hline, hlines⟩ := List.cons.inj hlines
    rw [List.mapM_cons] at hgood
    obtain ⟨cs, hcs, hgood⟩ := Option.bind_eq_some_iff.1 hgood
    obtain ⟨css, hcss, ⟨⟩⟩ := Option.bind_eq_some_iff.1 hgood
    obtain ⟨tail, htail, hbad, hwhole, hcount⟩ := ih hlines hcss
    obtain ⟨body, ending, hbody, hfirst, hbytes, rfl | ⟨-, hnil⟩⟩ := splitLine_cases bytes
    · obtain rfl : line = body ++ [10] := hline.symm.trans hfirst
      obtain ⟨ds, rfl, hds⟩ := exists_line hbody hcs
      refine ⟨tail, ?_, hbad, (Text.wholeLines_concat ds).append hwhole, ?_⟩
      · rw [List.flatten_cons, encode_append, ← decode?_eq_some_iff.1 hcs, List.append_assoc, ← htail]
        exact hbytes
      · rw [List.flatten_cons, List.count_append, hcount, List.count_append, List.count_eq_zero.2 hds]
        simp [Nat.add_comm]
    · rw [hnil] at hlines
      cases good <;> cases hlines

/-! ## Bytes that are read to their end -/

/-- A source that comes upon the line is not read to its end. -/
theorem Follows.exists_tokenize_error {e : LexError} (h : Follows e s t) : ∃ e', s.tokenize = .error e' := by
  by_cases hopen : ∀ e', t.tokenize = .error e' → e'.fault = .unterminatedString
  · exact ⟨e, h.tokenize.2 hopen⟩
  · push Not at hopen
    obtain ⟨e', he', hfault⟩ := hopen
    exact ⟨e', h.tokenize.1 e' he' hfault⟩

/-- Lines that can all be decoded are the bytes of the text that they make up. -/
theorem flatten_eq_encode {ls : List (List UInt8)} {css : List (List Char)} (h : ls.mapM decode? = some css) :
    ls.flatten = encode css.flatten := by
  induction ls generalizing css with
  | nil =>
    cases h
    rfl
  | cons line ls ih =>
    rw [List.mapM_cons] at h
    obtain ⟨cs, hcs, h⟩ := Option.bind_eq_some_iff.1 h
    obtain ⟨css, hcss, ⟨⟩⟩ := Option.bind_eq_some_iff.1 h
    rw [List.flatten_cons, List.flatten_cons, encode_append, ← decode?_eq_some_iff.1 hcs, ← ih hcss]

/-- Of lines that cannot all be decoded one is the first. -/
theorem exists_first_undecodable {ls : List (List UInt8)} (h : ls.mapM decode? = none) :
    ∃ good bad rest css, ls = good ++ bad :: rest ∧ good.mapM decode? = some css ∧ decode? bad = none := by
  induction ls with
  | nil => cases h
  | cons line ls ih =>
    cases hline : decode? line with
    | none => exact ⟨[], line, ls, [], rfl, rfl, hline⟩
    | some cs =>
      cases hls : ls.mapM decode? with
      | none =>
        obtain ⟨good, bad, rest, css, rfl, hgood, hbad⟩ := ih hls
        refine ⟨line :: good, bad, rest, cs :: css, rfl, ?_, hbad⟩
        rw [List.mapM_cons, hline, hgood]
        rfl
      | some css =>
        rw [List.mapM_cons, hline, hls] at h
        cases h

/-- Bytes that are not UTF-8 have whole lines of text in front of a line that is not. -/
theorem exists_undecodable {bytes : List UInt8} (h : decode? bytes = none) :
    ∃ cs tail, bytes = encode cs ++ tail ∧ WholeLines cs ∧ Undecodable tail := by
  cases hlines : (lines bytes).mapM decode? with
  | none =>
    obtain ⟨good, bad, rest, css, hsplit, hgood, hbad⟩ := exists_first_undecodable hlines
    obtain ⟨tail, hbytes, hline, hwhole, -⟩ := exists_text hsplit hgood
    exact ⟨css.flatten, tail, hbytes, hwhole, (congrArg decode? hline).trans hbad⟩
  | some css =>
    have hbytes : bytes = encode css.flatten := (List.flatten_splitBy _ bytes).symm.trans (flatten_eq_encode hlines)
    rw [decode?_eq_some_iff.2 hbytes] at h
    cases h

/-- Bytes that cannot be decoded are the bytes of no text. -/
theorem decode?_eq_none_iff {bytes : List UInt8} : decode? bytes = none ↔ ∀ text : String, bytes ≠ text.toUTF8.data.toList := by
  constructor
  · rintro h text rfl
    rw [← encode_toList, decode?_encode] at h
    cases h
  · intro h
    by_contra hsome
    obtain ⟨cs, hcs⟩ := Option.ne_none_iff_exists'.1 hsome
    refine h (String.ofList cs) ?_
    rw [← encode_toList, String.toList_ofList]
    exact decode?_eq_some_iff.1 hcs

/-- Bytes that can be cut into tokens to their end are the bytes of a text. -/
theorem exists_text_of_tokenize {bytes : List UInt8} {ts : List Token} (h : (ofBytes bytes).tokenize = .ok ts) :
    ∃ text : String, bytes = text.toUTF8.data.toList := by
  by_contra hno
  obtain ⟨cs, tail, hbytes, hwhole, htail⟩ := exists_undecodable (decode?_eq_none_iff.2 (not_exists.1 hno))
  have hahead : Ahead tail (ofBytes bytes) ⟨cs, [], .start⟩ := ⟨cs, hbytes, rfl⟩
  obtain ⟨e, he⟩ := (hahead.follows htail hwhole).exists_tokenize_error
  rw [h] at he
  cases he

end Source

/-- Bytes of which a line is not UTF-8 are read like the text of the lines before it, call by call, up to the call that finds this text
used up. That call fails where the line starts. So the first fault of the text comes first, unless it is a string that does not end. -/
theorem reading_undecodable {bytes bad : List UInt8} {good rest : List (List UInt8)} {text : String}
    (hlines : Source.lines bytes = good ++ bad :: rest) (hgood : (good.mapM Source.decode?).map List.flatten = some text.toList)
    (hbad : Source.decode? bad = none) :
    (∃ n, (∀ i < n, (Source.ofBytes bytes).nthToken i = (Source.ofString text).nthToken i ∧
          ¬ Source.RunsOut ((Source.ofString text).nthToken i)) ∧
        Source.RunsOut ((Source.ofString text).nthToken n) ∧
        (Source.ofBytes bytes).nthToken n = .error (Source.undecodableAt ⟨good.length + 1, 1⟩)) ∧
      (∀ e, (Source.ofString text).tokenize = .error e → e.fault ≠ .unterminatedString →
        (Source.ofBytes bytes).tokenize = .error e) ∧
      ((∀ e, (Source.ofString text).tokenize = .error e → e.fault = .unterminatedString) →
        (Source.ofBytes bytes).tokenize = .error (Source.undecodableAt ⟨good.length + 1, 1⟩)) := by
  obtain ⟨css, hcss, htext⟩ := Option.map_eq_some_iff.1 hgood
  obtain ⟨tail, hbytes, hline, hwhole, hcount⟩ := Source.exists_text hlines hcss
  rw [htext] at hbytes hwhole hcount
  have htail : Source.Undecodable tail := (congrArg Source.decode? hline).trans hbad
  have hahead : Source.Ahead tail (Source.ofBytes bytes) (Source.ofString text) := ⟨text.toList, hbytes, rfl⟩
  have hend : Position.start.advanceAll text.toList = ⟨good.length + 1, 1⟩ := by
    rw [Lexical.advanceAll_start, hwhole.place_eq, hcount]
  have hfollows : Source.Follows (Source.undecodableAt ⟨good.length + 1, 1⟩) (Source.ofBytes bytes) (Source.ofString text) :=
    hend ▸ hahead.follows htail hwhole
  exact ⟨hfollows.nthToken, hfollows.tokenize⟩

/-- The second line ends in a string that is still open, and the third line is not UTF-8. -/
theorem reading_undecodable_in_string :
    Source.lines [97, 10, 34, 10, 255, 10, 34] = [[97, 10], [34, 10]] ++ [255, 10] :: [[34]] ∧
      ([[97, 10], [34, 10]].mapM Source.decode?).map List.flatten = some "a\n\"\n".toList ∧
      Source.decode? [255, 10] = none ∧
      (Source.ofString "a\n\"\n").tokenize = .error ⟨.unterminatedString, ⟨2, 1⟩⟩ ∧
      (Source.ofBytes [97, 10, 34, 10, 255, 10, 34]).tokenize = .error (Source.undecodableAt ⟨3, 1⟩) := by
  have hlines : Source.lines [97, 10, 34, 10, 255, 10, 34] = [[97, 10], [34, 10]] ++ [255, 10] :: [[34]] := by decide +kernel
  have hgood : ([[97, 10], [34, 10]].mapM Source.decode?).map List.flatten = some "a\n\"\n".toList := by decide +kernel
  have hbad : Source.decode? [255, 10] = none := by decide +kernel
  have hopen : (Source.ofString "a\n\"\n").tokenize = .error ⟨.unterminatedString, ⟨2, 1⟩⟩ := by decide +kernel
  refine ⟨hlines, hgood, hbad, hopen, (reading_undecodable hlines hgood hbad).2.2 ?_⟩
  intro e he
  cases hopen.symm.trans he
  rfl

end C0Stack
