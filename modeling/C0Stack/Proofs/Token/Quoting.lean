import Mathlib.Algebra.Group.Nat.Even
import C0Stack.Proofs.Source.Draining

/-!
# Where strings close

A string ends at the first quote that has an even number of backslashes right before it (`Lexical.Closes`). The reader does not count
backslashes. It carries along whether the next character is escaped, and that is the case if and only if the number is odd
(`Lexing.escapesNext_eq_false_iff`). Up to the closing quote the characters therefore fall into single characters and whole pairs, which
stand for the text of the string (`Lexical.Unescaped`).
-/

namespace C0Stack

/-! ## Sources that hold a text -/

namespace Source

/-- The pieces of a text that was encoded are its characters. -/
theorem pieces_encode (cs : List Char) : (lines (encode cs)).flatMap Piece.ofLine = cs.map .char := by
  induction hlen : cs.length using Nat.strong_induction_on generalizing cs with
  | h n ih =>
    subst hlen
    by_cases hcs : cs = []
    · subst hcs
      rfl
    · obtain ⟨line, rest, rfl, hline, hsplit⟩ := splitLine_encode hcs (.inl rfl)
      rw [List.append_nil, List.append_nil] at hsplit
      have hlength : rest.length < (line ++ rest).length := by
        have hpos := List.length_pos_iff.2 hline
        rw [List.length_append]
        omega
      rw [lines_eq (encode_ne_nil hcs), hsplit, List.flatMap_cons, ih _ hlength rest rfl, Piece.ofLine, decode?_encode,
        List.map_append]

/-- Bytes whose pieces are the characters of a text are the encoding of the text. -/
theorem eq_encode_of_pieces {ls : List (List UInt8)} {cs : List Char} (h : ls.flatMap Piece.ofLine = cs.map .char) :
    ls.flatten = encode cs := by
  induction ls generalizing cs with
  | nil =>
    obtain rfl := List.map_eq_nil_iff.1 h.symm
    rfl
  | cons line ls ih =>
    rw [List.flatMap_cons] at h
    obtain ⟨cs₁, cs₂, rfl, hline, hrest⟩ := List.map_eq_append_iff.1 h.symm
    have hdecode : decode? line = some cs₁ := by
      unfold Piece.ofLine at hline
      cases hdecode : decode? line with
      | none =>
        rw [hdecode] at hline
        obtain ⟨c, _, -, hc, -⟩ := List.map_eq_cons_iff.1 hline
        cases hc
      | some cs =>
        rw [hdecode] at hline
        rw [List.map_injective_iff.2 (fun _ _ => Piece.char.inj) hline]
    rw [List.flatten_cons, ih hrest.symm, decode?_eq_some_iff.1 hdecode, encode_append]

/-- A text lies ahead of a source if the source hands out its characters and nothing else. -/
theorem ahead_iff {s : Source} {cs : List Char} {pos : Position} :
    Ahead [] s ⟨cs, [], pos⟩ ↔ s.pieces = cs.map .char ∧ s.pos = pos := by
  unfold Ahead pieces
  constructor
  · rintro ⟨ds, hpending, heq⟩
    obtain ⟨rfl, -, rfl⟩ := Source.mk.inj heq
    rw [hpending, List.append_nil, pieces_encode, List.map_append]
    exact ⟨rfl, rfl⟩
  · rintro ⟨hpieces, rfl⟩
    obtain ⟨cs₁, cs₂, rfl, hbuffer, hpending⟩ := List.map_eq_append_iff.1 hpieces.symm
    refine ⟨cs₂, ?_, ?_⟩
    · rw [List.append_nil, ← eq_encode_of_pieces hpending.symm, lines, List.flatten_splitBy]
    · rw [List.map_injective_iff.2 (fun _ _ => Piece.char.inj) hbuffer]

end Source

/-! ## Quotes and backslashes -/

namespace Lexical

/-- How many backslashes in a row stand at the end of the characters. -/
def backslashRun (cs : List Char) : Nat := (cs.reverse.takeWhile (· = '\\')).length

/-- The character at the place is the quote, and the number of backslashes right before it is even. -/
def Closes (quote : Char) (cs : List Char) (i : Nat) : Prop := cs[i]? = some quote ∧ Even (backslashRun (cs.take i))

instance (quote : Char) (cs : List Char) (i : Nat) : Decidable (Closes quote cs i) := inferInstanceAs (Decidable (_ ∧ _))

/-- The characters that have a meaning behind a backslash, with what the pair stands for. -/
def escapes : List (Char × Char) := [('\\', '\\'), ('"', '"'), ('\'', '\''), ('n', '\n'), ('t', '\t'), ('r', '\r')]

/-- The text that the characters between two quotes stand for. From the left, each backslash makes a pair with the character behind it. A
pair with a meaning stands for one character, and any other pair for itself. -/
inductive Unescaped : List Char → List Char → Prop
  | nil : Unescaped [] []
  | plain {c : Char} {raw text : List Char} : c ≠ '\\' → Unescaped raw text → Unescaped (c :: raw) (c :: text)
  | known {c value : Char} {raw text : List Char} : (c, value) ∈ escapes → Unescaped raw text →
      Unescaped ('\\' :: c :: raw) (value :: text)
  | unknown {c : Char} {raw text : List Char} : (∀ value, (c, value) ∉ escapes) → Unescaped raw text →
      Unescaped ('\\' :: c :: raw) ('\\' :: c :: text)

/-- A backslash makes the run longer, and another character ends it. -/
theorem backslashRun_append (cs : List Char) (c : Char) :
    backslashRun (cs ++ [c]) = if c = '\\' then backslashRun cs + 1 else 0 := by
  unfold backslashRun
  rw [List.reverse_append, List.reverse_singleton, List.singleton_append, List.takeWhile_cons]
  by_cases hc : c = '\\' <;> simp [hc]

end Lexical

namespace Lexing

open Lexical

/-- What the reader of a string carries along: whether a backslash among the characters so far escapes the next one. -/
def escapesNext (cs : List Char) : Bool := cs.foldl (fun escaped c => c == '\\' && !escaped) false

/-- A backslash escapes the next character unless it is escaped itself. -/
theorem escapesNext_append (cs : List Char) (c : Char) : escapesNext (cs ++ [c]) = (c == '\\' && !escapesNext cs) := by
  unfold escapesNext
  rw [List.foldl_append]
  rfl

/-- The next character is not escaped exactly if the number of backslashes before it is even. -/
theorem escapesNext_eq_false_iff {cs : List Char} : escapesNext cs = false ↔ Even (backslashRun cs) := by
  -- The run grows, and the flag turns, at the end of the characters.
  induction cs using List.reverseRecOn with
  | nil => exact ⟨fun _ => Even.zero, fun _ => rfl⟩
  | append_singleton cs c ih =>
    rw [escapesNext_append, backslashRun_append]
    by_cases hc : c = '\\'
    · rw [if_pos hc, Nat.even_add_one, ← ih, hc]
      simp
    · rw [if_neg hc]
      simp [hc]

section

variable {quote : Char} {cs : List Char}

/-- The string may close at a quote that is not escaped. -/
theorem closes_append_iff {seen : List Char} {c : Char} :
    Closes quote (seen ++ c :: cs) seen.length ↔ c = quote ∧ escapesNext seen = false := by
  unfold Closes
  rw [List.getElem?_append_right (Nat.le_refl _), Nat.sub_self, List.take_left, escapesNext_eq_false_iff, List.getElem?_cons_zero,
    Option.some_inj]

/-- With the characters that were seen before, the string closes at the first place where it may. -/
theorem quotedChars_of_closes (seen : List Char) {i : Nat} (hi : Closes quote (seen ++ cs) (seen.length + i))
    (hfirst : ∀ j < i, ¬ Closes quote (seen ++ cs) (seen.length + j)) (pos : Position) :
    quotedChars quote (escapesNext seen) ⟨cs, [], pos⟩ =
      (.ok (some (cs.take i)), ⟨cs.drop (i + 1), [], pos.advanceAll (cs.take (i + 1))⟩) := by
  induction cs generalizing seen i pos with
  | nil =>
    have hnone : (seen ++ [])[seen.length + i]? = none := by simp
    exact nomatch hnone.symm.trans hi.1
  | cons c cs ih =>
    rw [quotedChars_cons]
    cases i with
    | zero =>
      rw [if_pos (closes_append_iff.1 hi)]
      rfl
    | succ i =>
      have hshift : ∀ j, seen.length + (j + 1) = (seen ++ [c]).length + j := by
        intro j
        rw [List.length_append, List.length_singleton]
        omega
      rw [hshift, List.append_cons] at hi
      have hrest : ∀ j < i, ¬ Closes quote (seen ++ [c] ++ cs) ((seen ++ [c]).length + j) := by
        intro j hj
        rw [← hshift, ← List.append_cons]
        exact hfirst (j + 1) (by omega)
      rw [if_neg fun h => hfirst 0 (by omega) (closes_append_iff.2 h), ← escapesNext_append, ih _ hi hrest]
      rfl

/-- Without a place where it may close, the string takes all that is left. -/
theorem quotedChars_of_not_closes (seen : List Char) (h : ∀ i, ¬ Closes quote (seen ++ cs) (seen.length + i)) (pos : Position) :
    quotedChars quote (escapesNext seen) ⟨cs, [], pos⟩ = (.ok none, ⟨[], [], pos.advanceAll cs⟩) := by
  induction cs generalizing seen pos with
  | nil => exact quotedChars_nil quote _ pos
  | cons c cs ih =>
    have hrest : ∀ i, ¬ Closes quote (seen ++ [c] ++ cs) ((seen ++ [c]).length + i) := by
      intro i
      rw [← List.append_cons, List.length_append, List.length_singleton, Nat.add_assoc]
      exact h (1 + i)
    rw [quotedChars_cons, if_neg fun hc => h 0 (closes_append_iff.2 hc), ← escapesNext_append, ih _ hrest]
    rfl

end

/-! ## What the characters stand for -/

/-- A pair with a meaning stands for its character. -/
theorem escapeValue_of_mem {c value : Char} (h : (c, value) ∈ escapes) : escapeValue c = [value] := by
  have hall : ∀ p ∈ escapes, escapeValue p.1 = [p.2] := by decide
  exact hall _ h

/-- A pair without a meaning stands for itself. -/
theorem escapeValue_of_not_mem {c : Char} (h : ∀ value, (c, value) ∉ escapes) : escapeValue c = ['\\', c] := by
  unfold escapeValue
  split
  case h_7 => rfl
  all_goals simp [escapes] at h

/-- The reader takes the characters for the text that they stand for. -/
theorem unescape_of_unescaped {raw text : List Char} (h : Unescaped raw text) : unescape raw = text := by
  induction h with
  | nil => rfl
  | plain hc _ ih =>
    rw [unescape, ih]
    rintro d rest rfl
    exact absurd rfl hc
  | known hc _ ih => rw [unescape, ih, escapeValue_of_mem hc, List.singleton_append]
  | unknown hc _ ih => rw [unescape, ih, escapeValue_of_not_mem hc]; rfl

/-- Characters of which the last one does not escape the next fall into single characters and whole pairs. -/
theorem exists_unescaped {raw : List Char} (h : escapesNext raw = false) : ∃ text, Unescaped raw text := by
  fun_induction unescape raw with
  | case1 c rest ih =>
    have hpair : escapesNext ('\\' :: c :: rest) = escapesNext rest := by simp [escapesNext]
    obtain ⟨text, htext⟩ := ih (hpair ▸ h)
    by_cases hc : ∃ value, (c, value) ∈ escapes
    · obtain ⟨value, hvalue⟩ := hc
      exact ⟨_, htext.known hvalue⟩
    · exact ⟨_, htext.unknown (not_exists.1 hc)⟩
  | case2 c rest hpair ih =>
    have hc : c ≠ '\\' := by
      rintro rfl
      cases rest with
      | nil => cases h
      | cons d rest => exact hpair d rest rfl rfl
    have hrest : escapesNext (c :: rest) = escapesNext rest := by
      unfold escapesNext
      rw [List.foldl_cons, beq_false_of_ne hc, Bool.false_and]
    obtain ⟨text, htext⟩ := ih (hrest ▸ h)
    exact ⟨_, htext.plain hc⟩
  | case3 => exact ⟨[], .nil⟩

end Lexing

/-! ## String literals -/

open Lexical (Closes Unescaped)

/-- A text that starts with a quote is read as a string that ends at the first such quote with an even number of backslashes right before
it, and holds what the characters in between stand for. If there is none, all of the text is used up, and the place of the opening quote
is reported. -/
theorem string_closes_by_parity {s : Source} {quote : Char} {cs : List Char} (hquote : quote = '"' ∨ quote = '\'')
    (hs : s.pieces = (quote :: cs).map .char) :
    (∀ i, Closes quote cs i → (∀ j < i, ¬ Closes quote cs j) →
      (∃ text, Unescaped (cs.take i) text) ∧
      (∀ text, Unescaped (cs.take i) text → s.token.1 =
        .ok ⟨.string, .text (String.ofList text), s.pos, s.pos.advanceAll (quote :: cs.take (i + 1))⟩) ∧
      s.token.2.pieces = (cs.drop (i + 1)).map .char) ∧
    ((∀ i, ¬ Closes quote cs i) →
      s.token.1 = .error ⟨.unterminatedString, s.pos⟩ ∧ s.token.2.pieces = []) := by
  have hblank : Text.isBlank quote = false := by rcases hquote with rfl | rfl <;> rfl
  have htokenFrom : Lexing.tokenFrom quote s.pos = Lexing.string quote s.pos := by rcases hquote with rfl | rfl <;> rfl
  -- The token is cut from the characters in memory, where the reader of the string was followed.
  have htoken := Source.token_of_cons (List.forall_mem_nil _) hblank cs s.pos
  rw [List.nil_append, Position.advanceAll_nil, htokenFrom, Source.on_string] at htoken
  obtain ⟨t, ht, hahead⟩ := Source.agrees_token_ahead s _ (Source.ahead_iff.2 ⟨hs, rfl⟩)
  rw [htoken] at ht
  constructor
  · intro i hi hfirst
    have hread := Lexing.quotedChars_of_closes [] ((Nat.zero_add i).symm ▸ hi) (fun j hj => (Nat.zero_add j).symm ▸ hfirst j hj)
      (s.pos.advance quote)
    change Lexing.quotedChars quote false _ = _ at hread
    rw [hread] at ht
    obtain ⟨hresult, rfl⟩ := Prod.mk.inj ht
    refine ⟨Lexing.exists_unescaped (Lexing.escapesNext_eq_false_iff.2 hi.2), ?_, (Source.ahead_iff.1 hahead).1⟩
    intro text htext
    rw [← hresult, Lexing.unescape_of_unescaped htext]
    rfl
  · intro hnone
    have hread := Lexing.quotedChars_of_not_closes [] (fun i => (Nat.zero_add i).symm ▸ hnone i) (s.pos.advance quote)
    change Lexing.quotedChars quote false _ = _ at hread
    rw [hread] at ht
    obtain ⟨hresult, rfl⟩ := Prod.mk.inj ht
    exact ⟨hresult.symm, (Source.ahead_iff.1 hahead).1⟩

/-- A quote behind one backslash does not close the string, and one behind two does. A text with the first one only is not closed. -/
theorem string_closes_behind_pair :
    (Source.ofString "'\\'\\q\\\\' x").pieces = ['\'', '\\', '\'', '\\', 'q', '\\', '\\', '\'', ' ', 'x'].map .char ∧
      Closes '\'' ['\\', '\'', '\\', 'q', '\\', '\\', '\'', ' ', 'x'] 6 ∧
      (∀ j < 6, ¬ Closes '\'' ['\\', '\'', '\\', 'q', '\\', '\\', '\'', ' ', 'x'] j) ∧
      Unescaped ['\\', '\'', '\\', 'q', '\\', '\\'] ['\'', '\\', 'q', '\\'] ∧
      (Source.ofString "'\\'\\q\\\\' x").token.1 = .ok ⟨.string, .text "'\\q\\", ⟨1, 1⟩, ⟨1, 9⟩⟩ ∧
      (Source.ofString "'\\'\\q\\\\' x").token.2.pieces = [' ', 'x'].map .char ∧
      (∀ i, ¬ Closes '\'' ['\\', '\''] i) ∧
      (Source.ofString "'\\'").token.1 = .error ⟨.unterminatedString, ⟨1, 1⟩⟩ ∧ (Source.ofString "'\\'").token.2.pieces = [] := by
  have hpieces : (Source.ofString "'\\'\\q\\\\' x").pieces =
      ('\'' :: ['\\', '\'', '\\', 'q', '\\', '\\', '\'', ' ', 'x']).map .char := by decide +kernel
  have hcloses : Closes '\'' ['\\', '\'', '\\', 'q', '\\', '\\', '\'', ' ', 'x'] 6 := by decide
  have hfirst : ∀ j < 6, ¬ Closes '\'' ['\\', '\'', '\\', 'q', '\\', '\\', '\'', ' ', 'x'] j := by decide
  have htext : Unescaped ['\\', '\'', '\\', 'q', '\\', '\\'] ['\'', '\\', 'q', '\\'] :=
    .known (by decide) (.unknown (by simp [Lexical.escapes]) (.known (by decide) .nil))
  obtain ⟨-, htoken, hrest⟩ := (string_closes_by_parity (.inr rfl) hpieces).1 6 hcloses hfirst
  have hopen : ∀ i, ¬ Closes '\'' ['\\', '\''] i := by
    intro i hi
    have hlt : i < 2 := (List.getElem?_eq_some_iff.1 hi.1).1
    exact (by decide : ∀ i < 2, ¬ Closes '\'' ['\\', '\''] i) i hlt hi
  have hpieces' : (Source.ofString "'\\'").pieces = ('\'' :: ['\\', '\'']).map .char := by decide +kernel
  obtain ⟨herror, hnil⟩ := (string_closes_by_parity (.inr rfl) hpieces').2 hopen
  exact ⟨hpieces, hcloses, hfirst, htext, htoken _ htext, hrest, hopen, herror, hnil⟩

end C0Stack
