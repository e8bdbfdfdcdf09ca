import C0Stack.Proofs.Source.Undecodable

/-!
# Draining a source

A source has characters to hand out, and lines that cannot be decoded (`Source.pieces`). A call for the next token takes some of these
off the front, whether it gives a token or an error, and at least one of them as long as there is something to give. So calls that go on
after every error come to the end of the text, and from then on each of them finds the same end (`lexing_drains`).
-/

namespace C0Stack

namespace Source

/-! ## What a source has to hand out -/

/-- A character, or a line that cannot be decoded. -/
inductive Piece where
  | char (c : Char)
  | undecodable (line : List UInt8)
deriving DecidableEq, Repr

namespace Piece

/-- The character, if it is one. -/
def char? : Piece → Option Char
  | char c => some c
  | undecodable _ => none

/-- The characters of the line, or else the line itself. -/
def ofLine (line : List UInt8) : List Piece :=
  match decode? line with
  | some cs => cs.map char
  | none => [undecodable line]

end Piece

/-- All that is left of the source, in the order in which it is handed out. -/
def pieces (s : Source) : List Piece := s.buffer.map .char ++ (lines s.pending).flatMap Piece.ofLine

/-- The characters that are left of the source. -/
def characters (s : Source) : List Char := s.buffer ++ ((lines s.pending).filterMap decode?).flatten

/-- The lines that are left of the source and cannot be decoded. -/
def undecodableLines (s : Source) : List (List UInt8) := (lines s.pending).filter fun line => (decode? line).isNone

/-- The characters among the pieces are those that are left. -/
theorem filterMap_pieces (s : Source) : s.pieces.filterMap Piece.char? = s.characters := by
  have hchars : ∀ cs : List Char, (cs.map Piece.char).filterMap Piece.char? = cs := by
    intro cs
    rw [List.filterMap_map]
    exact List.filterMap_some
  unfold pieces characters
  rw [List.filterMap_append, hchars]
  congr 1
  induction lines s.pending with
  | nil => rfl
  | cons line rest ih =>
    rw [List.flatMap_cons, List.filterMap_append, ih, List.filterMap_cons]
    unfold Piece.ofLine
    cases decode? line with
    | none => rfl
    | some cs =>
      dsimp only
      rw [hchars, List.flatten_cons]

/-- There are as many pieces as characters and lines that cannot be decoded. -/
theorem length_pieces (s : Source) : s.pieces.length = s.characters.length + s.undecodableLines.length := by
  have hlines : ∀ ls : List (List UInt8), (ls.flatMap Piece.ofLine).length =
      (ls.filterMap decode?).flatten.length + (ls.filter fun line => (decode? line).isNone).length := by
    intro ls
    induction ls with
    | nil => rfl
    | cons line rest ih =>
      rw [List.flatMap_cons, List.length_append, ih, List.filterMap_cons, List.filter_cons]
      unfold Piece.ofLine
      cases decode? line with
      | none =>
        simp only [Option.isNone_none, if_true, List.length_cons, List.length_nil]
        omega
      | some cs =>
        simp only [List.length_map, Option.isNone_some, Bool.false_eq_true, if_false, List.flatten_cons, List.length_append]
        omega
  unfold pieces characters undecodableLines
  rw [List.length_append, List.length_append, List.length_map, hlines]
  omega

/-- A line that can be decoded has characters. -/
theorem ne_nil_of_decode? {pending : List UInt8} {cs : List Char} (hpending : pending ≠ [])
    (h : decode? (splitLine pending).1 = some cs) : cs ≠ [] := by
  rintro rfl
  obtain ⟨b, bytes, rfl⟩ := List.exists_cons_of_ne_nil hpending
  exact splitLine_cons_ne_nil b bytes (decode?_eq_some_iff.1 h)

/-! ## What a read takes -/

/-- The pieces were taken off the front of the first source, which left the second one. The place goes on over the characters among
them. -/
structure Took (s : Source) (taken : List Piece) (s' : Source) : Prop where
  pieces_eq : s.pieces = taken ++ s'.pieces
  pos_eq : s'.pos = s.pos.advanceAll (taken.filterMap Piece.char?)

section

variable {s s' s'' : Source} {taken taken' : List Piece}

theorem Took.refl (s : Source) : Took s [] s := ⟨rfl, rfl⟩

/-- What is taken in two steps is taken. -/
theorem Took.trans (h : Took s taken s') (h' : Took s' taken' s'') : Took s (taken ++ taken') s'' := by
  refine ⟨?_, ?_⟩
  · rw [h.pieces_eq, h'.pieces_eq, List.append_assoc]
  · rw [h'.pos_eq, h.pos_eq, List.filterMap_append, Position.advanceAll_append]

theorem Took.pos_le (h : Took s taken s') : s.pos ≤ s'.pos := by
  rw [h.pos_eq]
  exact Position.le_advanceAll _ _

/-- The place at which the text ends does not change. -/
theorem Took.advanceAll_eq (h : Took s taken s') : s'.pos.advanceAll s'.characters = s.pos.advanceAll s.characters := by
  rw [← filterMap_pieces, ← filterMap_pieces, h.pieces_eq, h.pos_eq, List.filterMap_append, Position.advanceAll_append]

end

/-- The buffer is filled from the next line, or that line cannot be decoded and is dropped. -/
theorem fill_cases (s : Source) :
    (∃ s', s.fill = (.ok (), s') ∧ Took s [] s' ∧ (s'.buffer = [] → s'.pieces = [])) ∨
      ∃ line s', s.fill = (.error .notUtf8, s') ∧ Took s [.undecodable line] s' := by
  obtain ⟨buffer, pending, pos⟩ := s
  cases buffer with
  | cons c cs => exact .inl ⟨_, rfl, .refl _, fun h => nomatch h⟩
  | nil =>
    by_cases hpending : pending = []
    · subst hpending
      exact .inl ⟨_, rfl, .refl _, fun _ => rfl⟩
    · have hpieces : pieces ⟨[], pending, pos⟩ =
          Piece.ofLine (splitLine pending).1 ++ (lines (splitLine pending).2).flatMap Piece.ofLine := by
        rw [pieces, lines_eq hpending, List.flatMap_cons]
        rfl
      rw [fill_nil hpending]
      unfold Piece.ofLine at hpieces
      cases hdecode : decode? (splitLine pending).1 with
      | none =>
        rw [hdecode] at hpieces
        exact .inr ⟨_, _, rfl, hpieces, rfl⟩
      | some cs =>
        rw [hdecode] at hpieces
        exact .inl ⟨_, rfl, ⟨hpieces, rfl⟩, fun h => absurd h (ne_nil_of_decode? hpending hdecode)⟩

section

variable {p : Char → Bool} {s s' : Source}

/-- What a look at the next character takes: the character, if it is of the class; nothing, if another one or none comes next; or a line
that cannot be decoded. -/
theorem nextIf_cases (p : Char → Bool) (s : Source) :
    (∃ c s', s.nextIf p = (.ok (some c), s') ∧ Took s [.char c] s') ∨
      (∃ s', s.nextIf p = (.ok none, s') ∧ Took s [] s' ∧ (s'.pieces = [] ∨ ∃ c, p c = false)) ∨
      ∃ line s', s.nextIf p = (.error .notUtf8, s') ∧ Took s [.undecodable line] s' := by
  rcases fill_cases s with ⟨⟨buffer, pending, pos⟩, hfill, htook, hend⟩ | ⟨line, s', hfill, htook⟩
  · cases buffer with
    | nil => exact .inr (.inl ⟨_, nextIf_of_fill_nil hfill p, htook, .inl (hend rfl)⟩)
    | cons c cs =>
      rw [nextIf_of_fill_cons hfill]
      by_cases hc : p c = true
      · rw [if_pos hc]
        exact .inl ⟨c, _, rfl, htook.trans ⟨rfl, rfl⟩⟩
      · rw [if_neg hc]
        exact .inr (.inl ⟨_, rfl, htook, .inr ⟨c, Bool.eq_false_iff.2 hc⟩⟩)
  · refine .inr (.inr ⟨line, s', ?_, htook⟩)
    unfold nextIf
    rw [hfill]

/-- A character that was given has been taken. -/
theorem took_of_take {c : Char} (h : s.nextIf p = (.ok (some c), s')) : Took s [.char c] s' := by
  rcases nextIf_cases p s with ⟨c', s'', hs, htook⟩ | ⟨s'', hs, -⟩ | ⟨line, s'', hs, -⟩ <;> cases h.symm.trans hs
  exact htook

/-- Where no character is given, none has been taken. -/
theorem took_of_none (h : s.nextIf p = (.ok none, s')) : Took s [] s' ∧ (s'.pieces = [] ∨ ∃ c, p c = false) := by
  rcases nextIf_cases p s with ⟨c', s'', hs, -⟩ | ⟨s'', hs, htook⟩ | ⟨line, s'', hs, -⟩ <;> cases h.symm.trans hs
  exact htook

/-- Where a read fails, a line has been taken that cannot be decoded. -/
theorem took_of_error {e : ReadError} (h : s.nextIf p = (.error e, s')) : ∃ line, Took s [.undecodable line] s' := by
  rcases nextIf_cases p s with ⟨c', s'', hs, -⟩ | ⟨s'', hs, -⟩ | ⟨line, s'', hs, htook⟩ <;> cases h.symm.trans hs
  exact ⟨line, htook⟩

end

/-- Whatever the read answers, it has taken pieces off the front, and at least one if it fails. -/
def Advances {α : Type} (f : Source → Except ReadError α × Source) : Prop :=
  ∀ s, ∃ taken, Took s taken (f s).2 ∧ ∀ e, (f s).1 = .error e → taken ≠ []

/-- A look at the next character takes something if it fails. -/
theorem advances_nextIf (p : Char → Bool) : Advances (nextIf p) := by
  intro s
  rcases nextIf_cases p s with ⟨c, s', hs, htook⟩ | ⟨s', hs, htook, -⟩ | ⟨line, s', hs, htook⟩ <;> rw [hs]
  · exact ⟨_, htook, fun _ _ => List.cons_ne_nil _ _⟩
  · exact ⟨_, htook, nofun⟩
  · exact ⟨_, htook, fun _ _ => List.cons_ne_nil _ _⟩

/-- So does a run of characters. -/
theorem advances_takeWhile (p : Char → Bool) : Advances (takeWhile p) := by
  intro s
  fun_induction takeWhile p s with
  | case1 s c s' hs cs s'' hs' ih | case2 s c s' hs e s'' hs' ih =>
    obtain ⟨taken, htook, -⟩ := ih
    rw [hs'] at htook
    exact ⟨_, (took_of_take hs).trans htook, fun _ _ => List.cons_ne_nil _ _⟩
  | case3 s s' hs => exact ⟨_, (took_of_none hs).1, by rintro _ ⟨⟩⟩
  | case4 s e s' hs =>
    obtain ⟨line, htook⟩ := took_of_error hs
    exact ⟨_, htook, fun _ _ => List.cons_ne_nil _ _⟩

/-- So do the characters of a string. -/
theorem advances_quotedChars (quote : Char) (escaped : Bool) : Advances (Lexing.quotedChars quote escaped) := by
  intro s
  fun_induction Lexing.quotedChars quote escaped s with
  | case1 escaped s c s' hs hc => exact ⟨_, took_of_take hs, fun _ _ => List.cons_ne_nil _ _⟩
  | case2 escaped s c s' hs hc cs s'' hs' ih | case3 escaped s c s' hs hc s'' hs' ih | case4 escaped s c s' hs hc e s'' hs' ih =>
    obtain ⟨taken, htook, -⟩ := ih
    rw [hs'] at htook
    exact ⟨_, (took_of_take hs).trans htook, fun _ _ => List.cons_ne_nil _ _⟩
  | case5 escaped s s' hs => exact ⟨_, (took_of_none hs).1, by rintro _ ⟨⟩⟩
  | case6 escaped s e s' hs =>
    obtain ⟨line, htook⟩ := took_of_error hs
    exact ⟨_, htook, fun _ _ => List.cons_ne_nil _ _⟩

end Source

/-! ## What a call takes -/

namespace Lexing

open Source (Took Advances)

variable {start : Position}

/-- Whatever it gives, the step has taken pieces off the front. A token goes from `start` to the place that was reached, and an error is
reported at one of the two. -/
def Spans (start : Position) (m : Lexing Token) : Prop :=
  ∀ s, ∃ taken, Took s taken (m.on s).2 ∧ (∀ t, (m.on s).1 = .ok t → t.start = start ∧ t.stop = (m.on s).2.pos) ∧
    ∀ e, (m.on s).1 = .error e → e.pos = start ∨ e.pos = (m.on s).2.pos

/-- A read in front of a step. -/
theorem Spans.read {α : Type} {f : Source → Except ReadError α × Source} {k : α → Lexing Token} (hf : Advances f)
    (hk : ∀ x, Spans start (k x)) : Spans start (Lexing.read f >>= k) := by
  intro s
  obtain ⟨taken, htook, -⟩ := hf s
  rw [on_bind, on, Lexing.read]
  rcases hs : f s with ⟨e | x, s'⟩ <;> rw [hs] at htook
  · refine ⟨taken, htook, by rintro _ ⟨⟩, ?_⟩
    rintro _ ⟨⟩
    exact .inr rfl
  · obtain ⟨taken', htook', hspan⟩ := hk x s'
    exact ⟨_, htook.trans htook', hspan⟩

/-- A token ends at the place that was reached. -/
theorem Spans.finish (kind : Token.Kind) (value : Token.Value) : Spans start (Lexing.finish kind value start) := by
  intro s
  refine ⟨[], .refl s, ?_, nofun⟩
  rintro _ ⟨⟩
  exact ⟨rfl, rfl⟩

/-- A fault is reported where the token starts. -/
theorem Spans.fail (fault : LexFault) : Spans start (Lexing.fail fault start) := by
  intro s
  refine ⟨[], .refl s, nofun, ?_⟩
  rintro _ ⟨⟩
  exact .inl rfl

/-- The steps of a token. -/
theorem stepwise_spans (start : Position) : Stepwise (Spans start) start where
  nextIf _ hk := .read (Source.advances_nextIf _) hk
  takeWhile _ hk := .read (Source.advances_takeWhile _) hk
  finish := .finish
  fail _ := .fail _

/-- Every token, strings included. -/
theorem Spans.tokenFrom (first : Char) (start : Position) : Spans start (Lexing.tokenFrom first start) := by
  refine (stepwise_spans start).tokenFrom first (.read (Source.advances_quotedChars first false) ?_)
  intro cs
  cases cs with
  | none => exact .fail _
  | some cs => exact .finish _ _

end Lexing

namespace Source

/-- A token behind white space that can be read. -/
theorem token_of_takeWhile_ok {s s' : Source} {bs : List Char} (h : s.takeWhile Text.isBlank = (.ok bs, s')) :
    s.token = match s'.next with
      | (.ok (some c), s'') => (Lexing.tokenFrom c s'.pos).on s''
      | (.ok none, s'') => (.ok (Token.endAt s'.pos), s'')
      | (.error e, s'') => (.error ⟨.unreadable e.message, s''.pos⟩, s'') := by
  unfold token Lexing.token
  rw [Lexing.on_bind, Lexing.on, Lexing.read, h]
  change Lexing.on (Lexing.read next >>= _) s' = _
  rw [Lexing.on_bind, Lexing.on, Lexing.read]
  rcases s'.next with ⟨e | _ | c, s''⟩ <;> rfl

/-- What a call for the next token can do with a source, and what it leaves. -/
inductive Progress (s s' : Source) : Except LexError Token → Prop
  /-- It takes some pieces, and gives a token that lies between the places before and behind them. -/
  | token {t : Token} {taken : List Piece} : Took s taken s' → taken ≠ [] → t.kind ≠ .endOfFile → s.pos ≤ t.start →
      t.start ≤ t.stop →
      t.stop = s'.pos → Progress s s' (.ok t)
  /-- It takes some pieces, and gives an error that lies between the places before and behind them. -/
  | error {e : LexError} {taken : List Piece} : Took s taken s' → taken ≠ [] → s.pos ≤ e.pos → e.pos ≤ s'.pos →
      Progress s s' (.error e)
  /-- It takes all that is left, and gives the end of the text. -/
  | ended {taken : List Piece} : Took s taken s' → s'.pieces = [] → Progress s s' (.ok (Token.endAt s'.pos))

/-- The rest of a token, behind white space and the first character. -/
theorem Progress.tokenFrom {s s₁ s₂ : Source} {blank : List Piece} {c : Char} (hblank : Took s blank s₁)
    (hc : Took s₁ [.char c] s₂) :
    Progress s ((Lexing.tokenFrom c s₁.pos).on s₂).2 ((Lexing.tokenFrom c s₁.pos).on s₂).1 := by
  obtain ⟨taken, htook, htoken, herror⟩ := Lexing.Spans.tokenFrom c s₁.pos s₂
  have hall := hblank.trans (hc.trans htook)
  have hne : blank ++ ([.char c] ++ taken) ≠ [] := by simp
  have hle := (hc.trans htook).pos_le
  rcases hresult : (Lexing.tokenFrom c s₁.pos).on s₂ with ⟨e | t, s'⟩ <;> rw [hresult] at htoken herror hall hle
  · obtain he | he := herror e rfl
    · exact .error hall hne (he ▸ hblank.pos_le) (he ▸ hle)
    · exact .error hall hne (he ▸ hall.pos_le) (.inr he)
  · obtain ⟨hstart, hstop⟩ := htoken t rfl
    have hkind := (Lexing.Shapes.tokenFrom c s₁.pos s₂ s' t hresult).2
    exact .token hall hne hkind (hstart ▸ hblank.pos_le) (by rwa [hstart, hstop]) hstop

/-- Every call for the next token does one of these. -/
theorem progress_token (s : Source) : Progress s s.token.2 s.token.1 := by
  obtain ⟨blank, hblank, hfail⟩ := advances_takeWhile Text.isBlank s
  rcases hs₁ : s.takeWhile Text.isBlank with ⟨e | bs, s₁⟩ <;> rw [hs₁] at hblank hfail
  · rw [token_of_takeWhile_error hs₁]
    exact .error hblank (hfail e rfl) hblank.pos_le (.inr rfl)
  · rw [token_of_takeWhile_ok hs₁]
    rcases hs₂ : s₁.next with ⟨e | _ | c, s₂⟩
    · obtain ⟨line, htook⟩ := took_of_error hs₂
      have hall := hblank.trans htook
      exact .error hall (by simp) hall.pos_le (.inr rfl)
    · obtain ⟨htook, hend⟩ := took_of_none hs₂
      have hpos : s₁.pos = s₂.pos := htook.pos_eq.symm
      rw [hpos]
      exact .ended (hblank.trans htook) (hend.resolve_right fun ⟨_, hc⟩ => nomatch hc)
    · exact .tokenFrom hblank (took_of_take hs₂)

/-! ## Call after call -/

/-- One more call is made on what the others leave. -/
theorem afterTokens_succ (s : Source) (n : Nat) : s.afterTokens (n + 1) = (s.afterTokens n).token.2 := by
  induction n generalizing s with
  | zero => rfl
  | succ n ih => exact ih s.token.2

/-- Once nothing is left, a call finds the end where it stands, and leaves the source as it is. -/
theorem Progress.of_nil {s s' : Source} {r : Except LexError Token} (h : Progress s s' r) (hs : s.pieces = []) :
    r = .ok (Token.endAt s.pos) ∧ s'.pos = s.pos ∧ s'.pieces = [] := by
  have hnil : ∀ {taken : List Piece}, Took s taken s' → taken = [] := by
    intro taken htook
    exact (List.append_eq_nil_iff.1 (htook.pieces_eq.symm.trans hs)).1
  cases h with
  | token htook hne => exact absurd (hnil htook) hne
  | error htook hne => exact absurd (hnil htook) hne
  | ended htook hend =>
    obtain rfl := hnil htook
    have hpos : s'.pos = s.pos := htook.pos_eq
    exact ⟨by rw [hpos], hpos, hend⟩

/-- A source with no pieces left has no characters left. -/
theorem characters_of_nil {s : Source} (h : s.pieces = []) : s.characters = [] := by
  rw [← filterMap_pieces, h]
  rfl

/-- Once nothing is left, every call gives the end. -/
theorem nthToken_of_nil {s : Source} (h : s.pieces = []) (m : Nat) :
    s.nthToken m = .ok (Token.endAt s.pos) ∧ (s.afterTokens (m + 1)).pos = s.pos := by
  induction m generalizing s with
  | zero =>
    obtain ⟨htoken, hpos, -⟩ := (progress_token s).of_nil h
    exact ⟨htoken, hpos⟩
  | succ m ih =>
    obtain ⟨-, hpos, hnil⟩ := (progress_token s).of_nil h
    have hrest := ih hnil
    rwa [hpos] at hrest

/-- Some call gives the end. No more calls come before it than there are pieces, and all calls behind it give the same. -/
theorem exists_ended (s : Source) : ∃ n ≤ s.pieces.length, (∀ i < n, ∀ t, s.nthToken i = .ok t → t.kind ≠ .endOfFile) ∧
    ∀ m ≥ n, s.nthToken m = .ok (Token.endAt (s.pos.advanceAll s.characters)) ∧
      (s.afterTokens (m + 1)).pos = s.pos.advanceAll s.characters := by
  induction hlen : s.pieces.length using Nat.strong_induction_on generalizing s with
  | h k ih =>
    subst hlen
    have hstep := progress_token s
    -- A call that does not give the end leaves fewer pieces, and the calls behind it come to the end.
    have hlater : ∀ {taken : List Piece}, Took s taken s.token.2 → taken ≠ [] → (∀ t, s.token.1 = .ok t → t.kind ≠ .endOfFile) →
        ∃ n ≤ s.pieces.length, (∀ i < n, ∀ t, s.nthToken i = .ok t → t.kind ≠ .endOfFile) ∧
          ∀ m ≥ n, s.nthToken m = .ok (Token.endAt (s.pos.advanceAll s.characters)) ∧
            (s.afterTokens (m + 1)).pos = s.pos.advanceAll s.characters := by
      intro taken htook hne hkind
      have hlength : s.token.2.pieces.length < s.pieces.length := by
        have hpos := List.length_pos_iff.2 hne
        rw [htook.pieces_eq, List.length_append]
        omega
      obtain ⟨n, hn, hbefore, hafter⟩ := ih _ hlength s.token.2 rfl
      rw [htook.advanceAll_eq] at hafter
      refine ⟨n + 1, by omega, ?_, ?_⟩
      · intro i hi
        cases i with
        | zero => exact hkind
        | succ i => exact hbefore i (by omega)
      · intro m hm
        obtain ⟨m, rfl⟩ : ∃ m', m = m' + 1 := ⟨m - 1, by omega⟩
        exact hafter m (by omega)
    generalize hresult : s.token.1 = r at hstep
    cases hstep with
    | token htook hne hkind =>
      refine hlater htook hne ?_
      intro t ht
      cases hresult.symm.trans ht
      exact hkind
    | error htook hne =>
      refine hlater htook hne ?_
      intro t ht
      cases hresult.symm.trans ht
    | ended htook hnil =>
      have hend : s.token.2.pos = s.pos.advanceAll s.characters := by
        rw [← htook.advanceAll_eq, characters_of_nil hnil]
        rfl
      rw [← hend]
      refine ⟨0, Nat.zero_le _, fun i hi => absurd hi (Nat.not_lt_zero i), ?_⟩
      intro m _
      cases m with
      | zero => exact ⟨hresult, rfl⟩
      | succ m => exact nthToken_of_nil hnil m

end Source

/-- Calls for the next token go on after errors. Each takes what is left off the front, at least one character or one line that cannot
be decoded unless it gives the end of the text, and what it reports lies between the places before and behind that. There are no more
calls before the one that gives the end than there are such characters and lines, and from then on every call gives the same. -/
theorem lexing_drains (s : Source) :
    (∀ n, ∃ taken, (s.afterTokens n).pieces = taken ++ (s.afterTokens (n + 1)).pieces ∧
      (s.afterTokens (n + 1)).pos = (s.afterTokens n).pos.advanceAll (taken.filterMap Source.Piece.char?) ∧
      ((∀ t, s.nthToken n = .ok t → t.kind ≠ .endOfFile) → taken ≠ []) ∧
      (∀ t, s.nthToken n = .ok t →
        (s.afterTokens n).pos ≤ t.start ∧ t.start ≤ t.stop ∧ t.stop = (s.afterTokens (n + 1)).pos) ∧
      ∀ e, s.nthToken n = .error e → (s.afterTokens n).pos ≤ e.pos ∧ e.pos ≤ (s.afterTokens (n + 1)).pos) ∧
    ∃ n ≤ s.characters.length + s.undecodableLines.length,
      (∀ i < n, ∀ t, s.nthToken i = .ok t → t.kind ≠ .endOfFile) ∧
      ∀ m ≥ n, s.nthToken m = .ok (Token.endAt (s.pos.advanceAll s.characters)) ∧
        (s.afterTokens (m + 1)).pos = s.pos.advanceAll s.characters := by
  refine ⟨?_, s.length_pieces ▸ s.exists_ended⟩
  intro n
  have hstep := (s.afterTokens n).progress_token
  rw [← Source.afterTokens_succ] at hstep
  generalize hresult : (s.afterTokens n).token.1 = r at hstep
  have hcall : s.nthToken n = r := hresult
  rw [hcall]
  cases hstep with
  | token htook hne hkind hbefore hspan hbehind =>
    refine ⟨_, htook.pieces_eq, htook.pos_eq, fun _ => hne, ?_, nofun⟩
    rintro t ⟨⟩
    exact ⟨hbefore, hspan, hbehind⟩
  | error htook hne hbefore hbehind =>
    refine ⟨_, htook.pieces_eq, htook.pos_eq, fun _ => hne, nofun, ?_⟩
    rintro e ⟨⟩
    exact ⟨hbefore, hbehind⟩
  | ended htook hnil =>
    refine ⟨_, htook.pieces_eq, htook.pos_eq, fun h => absurd rfl (h _ rfl), ?_, nofun⟩
    rintro t ⟨⟩
    exact ⟨htook.pos_le, .inr rfl, rfl⟩

end C0Stack
