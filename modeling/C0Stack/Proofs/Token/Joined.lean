import C0Stack.Proofs.Token.Shape

/-!
# Texts joined by a line feed

No token goes on over a line feed but a string literal, which its quote ends. So where the first of two texts can be cut to its end,
the tokens of the text that a line feed joins them to are those of the first and then those of the second (`Source.lex_joined`). The
first text may stand in another place than before: any map of places that goes with the steps from character to character moves its
tokens and changes nothing else.
-/

namespace C0Stack

/-- The map of places goes with the steps from one character to the next. -/
def Position.Steady (f : Position → Position) : Prop := ∀ p c, f (p.advance c) = (f p).advance c

/-- Then it goes with any number of steps. -/
theorem Position.Steady.advanceAll {f : Position → Position} (hf : Steady f) (p : Position) (cs : List Char) :
    f (p.advanceAll cs) = (f p).advanceAll cs := by
  induction cs generalizing p with
  | nil => rfl
  | cons c cs ih => rw [advanceAll_cons, ih, hf, advanceAll_cons]

/-- The place one line further down. -/
def Position.down (p : Position) : Position := ⟨p.line + 1, p.column⟩

/-- Going one line down goes with the steps. -/
theorem Position.steady_down : Steady down := by
  intro p c
  unfold advance
  split <;> rfl

/-- The token in another place. -/
def Token.move (f : Position → Position) (t : Token) : Token := { t with start := f t.start, stop := f t.stop }

/-! ## Reading from a text in memory -/

namespace Source

theorem nextIf_cons (p : Char → Bool) (c : Char) (cs : List Char) (pos : Position) :
    nextIf p ⟨c :: cs, [], pos⟩ =
      if p c then (.ok (some c), ⟨cs, [], pos.advance c⟩) else (.ok none, ⟨c :: cs, [], pos⟩) := rfl

theorem nextIf_nil (p : Char → Bool) (pos : Position) : nextIf p ⟨[], [], pos⟩ = (.ok none, ⟨[], [], pos⟩) := rfl

/-- A read takes the characters of the class from the front of the text. -/
theorem takeWhile_eq (p : Char → Bool) (cs : List Char) (pos : Position) :
    takeWhile p ⟨cs, [], pos⟩ =
      (.ok (cs.takeWhile p), ⟨cs.dropWhile p, [], pos.advanceAll (cs.takeWhile p)⟩) := by
  induction cs generalizing pos with
  | nil =>
    rw [takeWhile, nextIf_nil]
    rfl
  | cons c cs ih =>
    by_cases hc : p c = true
    · have hnext : nextIf p ⟨c :: cs, [], pos⟩ = (.ok (some c), ⟨cs, [], pos.advance c⟩) := by rw [nextIf_cons, if_pos hc]
      rw [takeWhile, hnext]
      dsimp only
      rw [ih, List.takeWhile_cons_of_pos hc, List.dropWhile_cons_of_pos hc]
      rfl
    · have hnext : nextIf p ⟨c :: cs, [], pos⟩ = (.ok none, ⟨c :: cs, [], pos⟩) := by rw [nextIf_cons, if_neg hc]
      rw [takeWhile, hnext, List.takeWhile_cons_of_neg hc, List.dropWhile_cons_of_neg hc]
      rfl

/-- A character that is not taken ends what is taken of the characters in front of it. -/
theorem takeWhile_append_cons {p : Char → Bool} {c : Char} (hc : p c = false) (cs ds : List Char) :
    (cs ++ c :: ds).takeWhile p = cs.takeWhile p ∧ (cs ++ c :: ds).dropWhile p = cs.dropWhile p ++ c :: ds := by
  induction cs with
  | nil => simp [hc]
  | cons d cs ih =>
    by_cases hd : p d = true
    · simpa [hd] using ih
    · simp [hd]

end Source

/-! ## Cutting one token -/

namespace Lexing

variable {f : Position → Position} {ds : List Char}

/-- Where the first step takes something from a text, the second one takes the same from the text with a line feed and `ds` behind it,
in the places that `f` gives. The place where the text ends does not change as it is taken. -/
def Joins (f : Position → Position) (ds : List Char) {α : Type} (r : α → α) (m m' : Lexing α) : Prop :=
  ∀ (cs : List Char) (pos : Position) (x : α) (s : Source), m.on ⟨cs, [], pos⟩ = (.ok x, s) →
    ∃ cs' pos', s = ⟨cs', [], pos'⟩ ∧ pos'.advanceAll cs' = pos.advanceAll cs ∧
      m'.on ⟨cs ++ '\n' :: ds, [], f pos⟩ = (.ok (r x), ⟨cs' ++ '\n' :: ds, [], f pos'⟩)

/-- Steps that take the same can be put in sequence. -/
theorem Joins.bind {α β : Type} {r : α → α} {q : β → β} {m m' : Lexing α} {k k' : α → Lexing β} (hm : Joins f ds r m m')
    (hk : ∀ x, Joins f ds q (k x) (k' (r x))) : Joins f ds q (m >>= k) (m' >>= k') := by
  intro cs pos y s h
  rw [on_bind] at h
  rcases hrun : m.on ⟨cs, [], pos⟩ with ⟨x | x, s₁⟩
  · rw [hrun] at h
    cases h
  · rw [hrun] at h
    obtain ⟨cs₁, pos₁, rfl, hend₁, hrun'⟩ := hm cs pos x s₁ hrun
    obtain ⟨cs', pos', rfl, hend, h'⟩ := hk x cs₁ pos₁ y s h
    refine ⟨cs', pos', rfl, hend.trans hend₁, ?_⟩
    rw [on_bind, hrun']
    exact h'

/-- The end of a token is moved with its start. -/
theorem Joins.finish (kind : Token.Kind) (value : Token.Value) (start : Position) :
    Joins f ds (Token.move f) (Lexing.finish kind value start) (Lexing.finish kind value (f start)) := by
  rintro cs pos t s ⟨⟩
  exact ⟨cs, pos, rfl, rfl, rfl⟩

theorem Joins.fail {α : Type} (r : α → α) (fault fault' : LexFault) (pos pos' : Position) :
    Joins f ds r (Lexing.fail fault pos) (Lexing.fail fault' pos') := by
  rintro cs pos x s ⟨⟩

/-- The next character is taken from the longer text as well, unless it may be a line feed. -/
theorem Joins.nextIf (hf : Position.Steady f) {p : Char → Bool} (hp : p '\n' = false) :
    Joins f ds id (Lexing.read (Source.nextIf p)) (Lexing.read (Source.nextIf p)) := by
  intro cs pos x s h
  cases cs with
  | nil =>
    cases h
    refine ⟨[], pos, rfl, rfl, ?_⟩
    unfold on Lexing.read
    rw [List.nil_append, Source.nextIf_cons, if_neg (by simp [hp])]
    rfl
  | cons c cs =>
    unfold on Lexing.read at h ⊢
    rw [Source.nextIf_cons] at h
    rw [List.cons_append, Source.nextIf_cons]
    by_cases hc : p c = true
    · rw [if_pos hc] at h
      cases h
      exact ⟨cs, pos.advance c, rfl, rfl, by rw [if_pos hc, hf]; rfl⟩
    · rw [if_neg hc] at h
      cases h
      exact ⟨c :: cs, pos, rfl, rfl, by rw [if_neg hc]; rfl⟩

/-- So is a run of characters without line feeds. -/
theorem Joins.takeWhile (hf : Position.Steady f) {p : Char → Bool} (hp : p '\n' = false) :
    Joins f ds id (Lexing.read (Source.takeWhile p)) (Lexing.read (Source.takeWhile p)) := by
  intro cs pos x s h
  obtain ⟨htake, hdrop⟩ := Source.takeWhile_append_cons hp cs ds
  unfold on Lexing.read at h ⊢
  rw [Source.takeWhile_eq] at h ⊢
  cases h
  refine ⟨_, _, rfl, ?_, by rw [htake, hdrop, hf.advanceAll]; rfl⟩
  rw [← Position.advanceAll_append, List.takeWhile_append_dropWhile]

/-- An integer is cut from the longer text as well. -/
theorem Joins.integer (digits : List Char) (start : Position) :
    Joins f ds (Token.move f) (Lexing.integer digits start) (Lexing.integer digits (f start)) := by
  unfold Lexing.integer
  split
  · exact .finish _ _ _
  · exact .fail _ _ _ _ _

/-- So is an exponent. -/
theorem Joins.exponent (hf : Position.Steady f) (whole fraction : List Char) (start : Position) :
    Joins f ds (Token.move f) (Lexing.exponent whole fraction start) (Lexing.exponent whole fraction (f start)) := by
  refine .bind (.nextIf hf (by decide)) fun mark => ?_
  cases mark with
  | none => exact .finish _ _ _
  | some mark =>
    refine .bind (.nextIf hf (by decide)) fun sign => .bind (.takeWhile hf (by decide)) fun digits => ?_
    dsimp only [id]
    split
    · exact .fail _ _ _ _ _
    · exact .finish _ _ _

/-- So is a number. -/
theorem Joins.number (hf : Position.Steady f) (first : Char) (start : Position) :
    Joins f ds (Token.move f) (Lexing.number first start) (Lexing.number first (f start)) := by
  refine .bind (.takeWhile hf (by decide)) fun digits => .bind (.nextIf hf (by decide)) fun point => ?_
  cases point with
  | none => exact .integer _ _
  | some _ =>
    refine .bind (.takeWhile hf (by decide)) fun fraction => ?_
    dsimp only [id]
    split
    · exact .fail _ _ _ _ _
    · exact .exponent hf _ _ _

/-- So is a word. -/
theorem Joins.word (hf : Position.Steady f) (first : Char) (start : Position) :
    Joins f ds (Token.move f) (Lexing.word first start) (Lexing.word first (f start)) := by
  refine .bind (.takeWhile hf (by decide)) fun rest => ?_
  dsimp only [id]
  split <;> exact .finish _ _ _

/-- At the end of the text a string is not closed. -/
theorem quotedChars_nil (quote : Char) (escaped : Bool) (pos : Position) :
    quotedChars quote escaped ⟨[], [], pos⟩ = (.ok none, ⟨[], [], pos⟩) := by
  rw [quotedChars]
  rfl

/-- A string is read character by character. -/
theorem quotedChars_cons (quote : Char) (escaped : Bool) (c : Char) (cs : List Char) (pos : Position) :
    quotedChars quote escaped ⟨c :: cs, [], pos⟩ =
      if c = quote ∧ escaped = false then (.ok (some []), ⟨cs, [], pos.advance c⟩)
      else
        match quotedChars quote (c == '\\' && !escaped) ⟨cs, [], pos.advance c⟩ with
        | (.ok (some qs), s) => (.ok (some (c :: qs)), s)
        | (.ok none, s) => (.ok none, s)
        | (.error e, s) => (.error e, s) := by
  rw [quotedChars]
  rfl

variable (ds) in
/-- The quote that ends a string literal is found before what comes behind the text. -/
theorem quotedChars_joined (hf : Position.Steady f) {quote : Char} {escaped : Bool} {cs : List Char} {pos : Position}
    {qs : List Char} {s : Source} (h : quotedChars quote escaped ⟨cs, [], pos⟩ = (.ok (some qs), s)) :
    ∃ cs' pos', s = ⟨cs', [], pos'⟩ ∧ pos'.advanceAll cs' = pos.advanceAll cs ∧
      quotedChars quote escaped ⟨cs ++ '\n' :: ds, [], f pos⟩ = (.ok (some qs), ⟨cs' ++ '\n' :: ds, [], f pos'⟩) := by
  induction cs generalizing escaped pos qs s with
  | nil =>
    rw [quotedChars_nil] at h
    cases h
  | cons c cs ih =>
    rw [quotedChars_cons] at h
    rw [List.cons_append, quotedChars_cons]
    by_cases hc : c = quote ∧ escaped = false
    · rw [if_pos hc] at h
      cases h
      exact ⟨cs, pos.advance c, rfl, rfl, by rw [if_pos hc, hf]⟩
    · rw [if_neg hc] at h
      rcases hrest : quotedChars quote (c == '\\' && !escaped) ⟨cs, [], pos.advance c⟩ with ⟨e | _ | rs, s₁⟩
      · rw [hrest] at h
        cases h
      · rw [hrest] at h
        cases h
      · rw [hrest] at h
        cases h
        obtain ⟨cs', pos', rfl, hend, hrest'⟩ := ih hrest
        exact ⟨cs', pos', rfl, hend, by rw [if_neg hc, ← hf, hrest']⟩

/-- A string literal is cut from the longer text as well. -/
theorem Joins.string (hf : Position.Steady f) (quote : Char) (start : Position) :
    Joins f ds (Token.move f) (Lexing.string quote start) (Lexing.string quote (f start)) := by
  intro cs pos t s h
  unfold Lexing.string at h ⊢
  rw [on_bind] at h ⊢
  unfold Lexing.read at h ⊢
  rcases hquoted : quotedChars quote false ⟨cs, [], pos⟩ with ⟨e | _ | qs, s₁⟩
  · simp only [on, hquoted] at h
    cases h
  · simp only [on, hquoted] at h
    cases h
  · simp only [on, hquoted] at h
    obtain ⟨cs', pos', rfl, hend, hquoted'⟩ := quotedChars_joined ds hf hquoted
    cases h
    exact ⟨cs', pos', rfl, hend, by simp only [on, hquoted']; rfl⟩

/-- So is a symbol. -/
theorem Joins.symbol (hf : Position.Steady f) (first : Char) (start : Position) :
    Joins f ds (Token.move f) (Lexing.symbol first start) (Lexing.symbol first (f start)) := by
  unfold Lexing.symbol
  split
  · exact .finish _ _ _
  · rename_i second long short hsingle hpaired
    have hsecond : ('\n' == second) = false := by
      unfold paired? at hpaired
      split at hpaired <;> cases hpaired <;> decide
    refine .bind (.nextIf hf hsecond) fun found => ?_
    dsimp only [id]
    split
    · exact .finish _ _ _
    · exact .finish _ _ _
    · exact .fail _ _ _ _ _
  · exact .fail _ _ _ _ _

/-- So is any token. -/
theorem Joins.tokenFrom (hf : Position.Steady f) (first : Char) (start : Position) :
    Joins f ds (Token.move f) (Lexing.tokenFrom first start) (Lexing.tokenFrom first (f start)) := by
  unfold Lexing.tokenFrom
  split
  · exact .number hf _ _
  · split
    · exact .word hf _ _
    · split
      · exact .string hf _ _
      · exact .symbol hf _ _

end Lexing

namespace Source

/-! ## Cutting the whole text -/

/-- Blanks in front are taken together with those that come first in the rest. -/
theorem read_blank {bs : List Char} (hbs : ∀ b ∈ bs, Text.isBlank b = true) (cs : List Char) (pos : Position) :
    (Lexing.read (takeWhile Text.isBlank)).on ⟨bs ++ cs, [], pos⟩ =
      (.ok (bs ++ cs.takeWhile Text.isBlank),
        ⟨cs.dropWhile Text.isBlank, [], pos.advanceAll (bs ++ cs.takeWhile Text.isBlank)⟩) := by
  unfold Lexing.on Lexing.read
  rw [takeWhile_eq, List.takeWhile_append_of_pos hbs, List.dropWhile_append_of_pos hbs]

/-- Behind blanks that are all that is left comes the end. -/
theorem token_of_blank {bs : List Char} (hbs : ∀ b ∈ bs, Text.isBlank b = true) (pos : Position) :
    token ⟨bs, [], pos⟩ = (.ok (Token.endAt (pos.advanceAll bs)), ⟨[], [], pos.advanceAll bs⟩) := by
  have hread := read_blank hbs [] pos
  rw [List.append_nil] at hread
  unfold token Lexing.token
  rw [Lexing.on_bind, hread, List.takeWhile_nil, List.append_nil]
  rfl

/-- Behind blanks comes the token that starts with the next character. -/
theorem token_of_cons {bs : List Char} (hbs : ∀ b ∈ bs, Text.isBlank b = true) {c : Char} (hc : Text.isBlank c = false)
    (cs : List Char) (pos : Position) :
    token ⟨bs ++ c :: cs, [], pos⟩ = (Lexing.tokenFrom c (pos.advanceAll bs)).on ⟨cs, [], (pos.advanceAll bs).advance c⟩ := by
  unfold token Lexing.token
  rw [Lexing.on_bind, read_blank hbs, List.takeWhile_cons_of_neg (by simp [hc]), List.dropWhile_cons_of_neg (by simp [hc]),
    List.append_nil]
  rfl

/-- A text is all blank, or has a first character that is not. -/
theorem blank_cases (cs : List Char) : (∀ b ∈ cs, Text.isBlank b = true) ∨
    ∃ bs c rest, cs = bs ++ c :: rest ∧ (∀ b ∈ bs, Text.isBlank b = true) ∧ Text.isBlank c = false := by
  induction cs with
  | nil => exact .inl (by simp)
  | cons c cs ih =>
    cases hc : Text.isBlank c with
    | false => exact .inr ⟨[], c, cs, rfl, by simp, hc⟩
    | true =>
      obtain hcs | ⟨bs, d, rest, rfl, hbs, hd⟩ := ih
      · exact .inl (List.forall_mem_cons.2 ⟨hc, hcs⟩)
      · exact .inr ⟨c :: bs, d, rest, rfl, List.forall_mem_cons.2 ⟨hc, hbs⟩, hd⟩

/-- A text is cut into its first token and the rest. -/
theorem lex_eq (s : Source) :
    s.lex =
      match s.token with
      | (.ok t, s') => if t.kind = .endOfFile then ⟨[], .ok t.start⟩ else ⟨t :: s'.lex.tokens, s'.lex.ending⟩
      | (.error e, _) => ⟨[], .error e⟩ := by
  rw [lex]
  rcases s.token with ⟨e | t, s'⟩
  · rfl
  · by_cases ht : t.kind = .endOfFile
    · simp only [ht, dite_true, if_true]
    · simp only [ht, dite_false, if_false]

/-- Blanks in front of a text do nothing but move it. -/
theorem lex_of_blank {bs : List Char} (hbs : ∀ b ∈ bs, Text.isBlank b = true) (cs : List Char) (pos : Position) :
    lex ⟨bs ++ cs, [], pos⟩ = lex ⟨cs, [], pos.advanceAll bs⟩ := by
  have htoken : token ⟨bs ++ cs, [], pos⟩ = token ⟨cs, [], pos.advanceAll bs⟩ := by
    obtain hcs | ⟨bs', c, rest, rfl, hbs', hc⟩ := blank_cases cs
    · rw [token_of_blank (List.forall_mem_append.2 ⟨hbs, hcs⟩), token_of_blank hcs, Position.advanceAll_append]
    · rw [← List.append_assoc, token_of_cons (List.forall_mem_append.2 ⟨hbs, hbs'⟩) hc, token_of_cons hbs' hc,
        Position.advanceAll_append]
  rw [lex_eq, lex_eq, htoken]

variable {f : Position → Position}

/-- A token that is not the end is cut also where more comes behind the text. -/
theorem token_joined (hf : Position.Steady f) (ds : List Char) {cs : List Char} {pos : Position} {t : Token} {s : Source}
    (h : token ⟨cs, [], pos⟩ = (.ok t, s)) (ht : t.kind ≠ .endOfFile) :
    ∃ cs' pos', s = ⟨cs', [], pos'⟩ ∧ pos'.advanceAll cs' = pos.advanceAll cs ∧
      token ⟨cs ++ '\n' :: ds, [], f pos⟩ = (.ok (t.move f), ⟨cs' ++ '\n' :: ds, [], f pos'⟩) := by
  obtain hcs | ⟨bs, c, rest, rfl, hbs, hc⟩ := blank_cases cs
  · rw [token_of_blank hcs] at h
    cases h
    exact absurd rfl ht
  · rw [token_of_cons hbs hc] at h
    have hjoins : Lexing.Joins f ds _ _ _ := Lexing.Joins.tokenFrom hf c (pos.advanceAll bs)
    obtain ⟨cs', pos', rfl, hend, h'⟩ := hjoins rest _ t s h
    refine ⟨cs', pos', rfl, ?_, ?_⟩
    · rw [hend, Position.advanceAll_append, Position.advanceAll_cons]
    · rw [List.append_assoc, List.cons_append, token_of_cons hbs hc, ← hf.advanceAll, ← hf, h']

/-- The tokens of two texts with a line feed between them are those of the first, moved, and those of the second. -/
theorem lex_joined (hf : Position.Steady f) (ds : List Char) {cs : List Char} {pos stop : Position} {ts : List Token}
    (h : lex ⟨cs, [], pos⟩ = ⟨ts, .ok stop⟩) :
    lex ⟨cs ++ '\n' :: ds, [], f pos⟩ =
      ⟨ts.map (Token.move f) ++ (lex ⟨ds, [], ((f pos).advanceAll cs).advance '\n'⟩).tokens,
        (lex ⟨ds, [], ((f pos).advanceAll cs).advance '\n'⟩).ending⟩ := by
  rw [lex_eq] at h
  rcases htoken : token ⟨cs, [], pos⟩ with ⟨e | t, s⟩
  · rw [htoken] at h
    cases h
  by_cases ht : t.kind = .endOfFile
  · rw [htoken] at h
    simp only [ht, if_true] at h
    cases h
    -- the blanks that are left of the first text, and the line feed, are blanks in front of the second one
    have hcs : ∀ b ∈ cs, Text.isBlank b = true := by
      obtain hcs | ⟨bs, c, rest, rfl, hbs, hc⟩ := blank_cases cs
      · exact hcs
      · rw [token_of_cons hbs hc] at htoken
        obtain ⟨-, hne⟩ : t.WellShaped ∧ t.kind ≠ .endOfFile := Lexing.Shapes.tokenFrom c _ _ _ t htoken
        exact absurd ht hne
    have hline : Text.isBlank '\n' = true := by decide
    have hblank : ∀ b ∈ cs ++ ['\n'], Text.isBlank b = true :=
      List.forall_mem_append.2 ⟨hcs, fun b hb => List.mem_singleton.1 hb ▸ hline⟩
    have happend : cs ++ '\n' :: ds = (cs ++ ['\n']) ++ ds := by rw [List.append_assoc, List.singleton_append]
    rw [happend, lex_of_blank hblank, Position.advanceAll_append]
    rfl
  · have hlt := size_token_lt htoken ht
    rw [htoken] at h
    simp only [ht, if_false] at h
    obtain ⟨cs', pos', rfl, hend, htoken'⟩ := token_joined hf ds htoken ht
    have hrest : lex ⟨cs', [], pos'⟩ = ⟨_, .ok stop⟩ := congrArg (Lexed.mk (lex ⟨cs', [], pos'⟩).tokens) (congrArg Lexed.ending h)
    obtain rfl : t :: (lex ⟨cs', [], pos'⟩).tokens = ts := congrArg Lexed.tokens h
    have hmoved : (t.move f).kind ≠ .endOfFile := ht
    have hlength : cs'.length < cs.length := by simpa [size] using hlt
    have ih := lex_joined hf ds hrest
    rw [lex_eq, htoken']
    simp only [hmoved, if_false]
    rw [ih, ← hf.advanceAll, hend, hf.advanceAll]
    rfl
termination_by cs.length

end Source

end C0Stack
