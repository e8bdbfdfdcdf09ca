import C0Stack.Proofs.Token.Cutting
import C0Stack.Proofs.Viewer.Highlighting

/-!
# The strings of a highlighted line

The viewer finds the strings of a line without the lexer. On a line that can be cut into tokens the two agree: the spans that start with a
quote are the string literals, with the same first and last columns (`quoted_spans_are_strings`). Apart from strings no lexeme holds a
quote, so the words that the viewer has begun and the lexemes need not end at the same places.
-/

namespace C0Stack

/-- The span starts with a quote. -/
def Span.isQuoted (span : Span) : Bool :=
  match span.chars with
  | [] => false
  | c :: _ => c == '"' || c == '\''

/-- The places of the spans that start with a quote, on a line of its own that goes on at the given column: where each of them starts, and
the place behind it. -/
def TextLine.quotedPlaces (column : Nat) : TextLine → List (Position × Position)
  | [] => []
  | span :: line =>
    if span.isQuoted then (⟨1, column⟩, ⟨1, column + span.chars.length⟩) :: quotedPlaces (column + span.chars.length) line
    else quotedPlaces (column + span.chars.length) line

namespace Highlight

/-! ## Where the viewer finds strings -/

/-- No part of a word is a quote. -/
theorem not_quote_of_isWordPart {c : Char} (h : isWordPart c = true) : ¬ Text.IsQuote c := by
  rintro (rfl | rfl) <;> revert h <;> decide

section

variable {c : Char} (word rest : List Char)

/-- A part of a word is added to the word that was begun. -/
theorem spans_word (hc : isWordPart c = true) : spans word (c :: rest) = spans (word ++ [c]) rest := by
  rw [spans, if_neg (not_quote_of_isWordPart hc), if_pos hc]

/-- A word ends at what is no part of one. -/
theorem spans_not_word (hc : isWordPart c = false) :
    ∃ style, spans word (c :: rest) = spanOf word style ++ spans [] (c :: rest) := by
  by_cases hquote : Text.IsQuote c
  · refine ⟨.plain, ?_⟩
    rw [spans, spans, if_pos hquote, if_pos hquote]
    rfl
  · refine ⟨wordStyle word (c == '('), ?_⟩
    rw [spans, spans, if_neg hquote, if_neg hquote, hc, if_neg Bool.false_ne_true, if_neg Bool.false_ne_true]
    rfl

end

/-- The strings that the viewer finds in the rest of a line. -/
def stringsFrom (column : Nat) (cs : List Char) : List (Position × Position) := TextLine.quotedPlaces column (spans [] cs)

section

variable (column : Nat) {c : Char} {word : List Char} (rest : List Char)

/-- A word holds no string. -/
theorem quotedPlaces_spanOf (hword : ∀ d ∈ word, isWordPart d = true) (style : Style) (line : TextLine) :
    TextLine.quotedPlaces column (spanOf word style ++ line) = TextLine.quotedPlaces (column + word.length) line := by
  cases word with
  | nil => rfl
  | cons d word =>
    have hd := not_quote_of_isWordPart (hword d List.mem_cons_self)
    have hquoted : Span.isQuoted ⟨d :: word, style⟩ = false := by simpa [Span.isQuoted] using hd
    have hspan : spanOf (d :: word) style ++ line = ⟨d :: word, style⟩ :: line := rfl
    rw [hspan, TextLine.quotedPlaces, hquoted, if_neg Bool.false_ne_true]

/-- The word that was begun makes no difference. -/
theorem quotedPlaces_spans (hword : ∀ d ∈ word, isWordPart d = true) :
    TextLine.quotedPlaces column (spans word rest) = stringsFrom (column + word.length) rest := by
  induction rest generalizing column word with
  | nil =>
    rw [spans, ← List.append_nil (spanOf word _), quotedPlaces_spanOf column hword, stringsFrom, spans]
    rfl
  | cons c rest ih =>
    cases hc : isWordPart c with
    | true =>
      have hletter : ∀ d ∈ [c], isWordPart d = true := List.forall_mem_singleton.2 hc
      have hright : stringsFrom (column + word.length) (c :: rest) = stringsFrom (column + word.length + 1) rest := by
        rw [stringsFrom, spans_word [] rest hc]
        exact ih _ hletter
      rw [spans_word word rest hc, ih column (List.forall_mem_append.2 ⟨hword, hletter⟩), hright, List.length_append, Nat.add_assoc]
      rfl
    | false =>
      obtain ⟨style, hspans⟩ := spans_not_word word rest hc
      rw [hspans, quotedPlaces_spanOf column hword, stringsFrom]

/-- At a quote a string starts. -/
theorem stringsFrom_quote (hc : Text.IsQuote c) :
    stringsFrom column (c :: rest) = (⟨1, column⟩, ⟨1, column + (c :: (splitString c rest).1).length⟩) ::
      stringsFrom (column + (c :: (splitString c rest).1).length) (splitString c rest).2 := by
  have hquoted : Span.isQuoted ⟨c :: (splitString c rest).1, .ofFg Theme.string⟩ = true := by simpa [Span.isQuoted] using hc
  rw [stringsFrom, spans, if_pos hc, spanOf, if_pos List.isEmpty_nil, List.nil_append, TextLine.quotedPlaces, if_pos hquoted]
  rfl

/-- At another character none does. -/
theorem stringsFrom_cons (hc : ¬ Text.IsQuote c) : stringsFrom column (c :: rest) = stringsFrom (column + 1) rest := by
  cases hword : isWordPart c with
  | true =>
    rw [stringsFrom, spans_word [] rest hword]
    exact quotedPlaces_spans column rest (List.forall_mem_singleton.2 hword)
  | false =>
    have hquoted : Span.isQuoted ⟨[c], symbolStyle c⟩ = false := by simpa [Span.isQuoted] using hc
    rw [stringsFrom, spans, if_neg hc, hword, if_neg Bool.false_ne_true, spanOf, if_pos List.isEmpty_nil, List.nil_append,
      TextLine.quotedPlaces, hquoted, if_neg Bool.false_ne_true]
    rfl

/-- Nor does one among characters that are not quotes. -/
theorem stringsFrom_append {cs : List Char} (hcs : ∀ d ∈ cs, ¬ Text.IsQuote d) :
    stringsFrom column (cs ++ rest) = stringsFrom (column + cs.length) rest := by
  induction cs generalizing column with
  | nil => rfl
  | cons c cs ih =>
    obtain ⟨hc, hcs⟩ := List.forall_mem_cons.1 hcs
    rw [List.cons_append, stringsFrom_cons column _ hc, ih _ hcs, List.length_cons, Nat.add_assoc, Nat.add_comm 1]

end

/-- A string ends at its quote, unless a backslash comes first. -/
theorem splitString_cons {quote c : Char} (hc : c ≠ '\\') (rest : List Char) :
    splitString quote (c :: rest) =
      if c = quote then ([c], rest) else (c :: (splitString quote rest).1, (splitString quote rest).2) := by
  rw [splitString]
  intro _ _ hescape
  exact absurd hescape hc

end Highlight

/-! ## Where the lexer finds strings -/

namespace Lexical

open Highlight

theorem not_quote_of_isDigit {c : Char} (h : c.isDigit = true) : ¬ Text.IsQuote c := by
  rintro (rfl | rfl) <;> cases h

/-- No part of a name is a quote. -/
theorem not_quote_of_isNamePart {c : Char} (h : Lexing.isNamePart c = true) : ¬ Text.IsQuote c := by
  rintro (rfl | rfl) <;> revert h <;> decide

theorem not_quote_of_isBlank {c : Char} (h : Text.isBlank c = true) : ¬ Text.IsQuote c := by
  rintro (rfl | rfl) <;> revert h <;> decide

theorem Digits.not_quote {ds : List Char} (h : Digits ds) : ∀ c ∈ ds, ¬ Text.IsQuote c :=
  fun c hc => not_quote_of_isDigit (h.2 c hc)

/-- The mark of an exponent is no quote. -/
theorem not_quote_of_mark {c : Char} (h : c = 'e' ∨ c = 'E') : ¬ Text.IsQuote c := by
  rcases h with rfl | rfl <;> decide

/-- An exponent holds no quote. -/
theorem Exponent.not_quote {es : List Char} {e : Int} (h : Exponent es e) : ∀ c ∈ es, ¬ Text.IsQuote c := by
  cases h with
  | none => exact List.forall_mem_nil _
  | unsigned hmark hds => exact List.forall_mem_cons.2 ⟨not_quote_of_mark hmark, hds.not_quote⟩
  | plus hmark hds | minus hmark hds =>
    exact List.forall_mem_cons.2 ⟨not_quote_of_mark hmark, List.forall_mem_cons.2 ⟨by decide, hds.not_quote⟩⟩

/-- A fixed spelling holds no quote. -/
theorem not_quote_of_mem_spelling {kind : Token.Kind} {s : String} (h : kind.spelling = some s) :
    ∀ c ∈ s.toList, ¬ Text.IsQuote c := by
  have hall : s.toList.all (fun c => !decide (Text.IsQuote c)) = true := by cases kind <;> cases h <;> decide
  intro c hc
  simpa using List.all_eq_true.1 hall c hc

/-- Only strings hold quotes. -/
theorem Lexeme.not_quote {lex : List Char} {kind : Token.Kind} {value : Token.Value} (h : Lexeme lex kind value)
    (hkind : kind ≠ .string) :
    ∀ c ∈ lex, ¬ Text.IsQuote c := by
  cases h with
  | integer hds => exact hds.not_quote
  | double hds hfs hes =>
    have hpoint : ¬ Text.IsQuote '.' := by decide
    exact List.forall_mem_append.2 ⟨hds.not_quote,
      List.forall_mem_cons.2 ⟨hpoint, List.forall_mem_append.2 ⟨hfs.not_quote, hes.not_quote⟩⟩⟩
  | string => exact absurd rfl hkind
  | name hc hcs _ =>
    have hstart := not_quote_of_isNamePart (Lexing.isNamePart_of_isNameStart hc)
    exact List.forall_mem_cons.2 ⟨hstart, fun d hd => not_quote_of_isNamePart (hcs d hd)⟩
  | fixed hspelling => exact not_quote_of_mem_spelling hspelling

/-- The viewer ends a string where the lexer ends it. -/
theorem Quoted.splitString_eq {quote : Char} {raw text : List Char} (hquote : quote ≠ '\\') (h : Quoted quote raw text)
    (rest : List Char) :
    splitString quote (raw ++ quote :: rest) = (raw ++ [quote], rest) := by
  induction h with
  | nil => rw [List.nil_append, splitString_cons hquote, if_pos rfl, List.nil_append]
  | plain hc hescape _ ih => rw [List.cons_append, splitString_cons hescape, if_neg hc, ih, List.cons_append]
  | escape _ ih => rw [List.cons_append, List.cons_append, splitString, ih, List.cons_append, List.cons_append]

/-- What the viewer finds in one lexeme: the lexeme, if it is a string, and nothing otherwise. -/
theorem Lexeme.stringsFrom_append {lex : List Char} {kind : Token.Kind} {value : Token.Value} (h : Lexeme lex kind value)
    (column : Nat) (rest : List Char) :
    stringsFrom column (lex ++ rest) =
      (if kind = .string then [(⟨1, column⟩, ⟨1, column + lex.length⟩)] else []) ++ stringsFrom (column + lex.length) rest := by
  by_cases hkind : kind = .string
  · subst hkind
    cases h with
    | @string quote raw text hquote hraw =>
      rw [List.cons_append, List.append_assoc, List.singleton_append, stringsFrom_quote _ _ hquote,
        hraw.splitString_eq (Text.IsQuote.ne_backslash hquote), if_pos rfl, List.singleton_append]
    | fixed hspelling => cases hspelling
  · rw [Highlight.stringsFrom_append _ _ (h.not_quote hkind), if_neg hkind, List.nil_append]

/-- On the first line a place is told by the number of characters before it. -/
theorem place_of_not_mem {before : List Char} (h : '\n' ∉ before) : place before = ⟨1, before.length + 1⟩ := by
  have hall : ∀ c ∈ before.reverse, decide (c ≠ '\n') = true := by
    intro c hc
    refine decide_eq_true ?_
    rintro rfl
    exact h (List.mem_reverse.1 hc)
  have hrun := (takeWhile_run hall not_starts_nil).1
  rw [List.append_nil] at hrun
  rw [place, List.count_eq_zero_of_not_mem h, hrun, List.length_reverse]

/-- Along a text of one line the viewer and the lexer find the same strings. -/
theorem Cuts.stringsFrom_eq {before cs : List Char} {ts : List Token} (h : Cuts before cs ts) (hline : '\n' ∉ before ++ cs) :
    stringsFrom (before.length + 1) cs = (ts.filter fun t => t.kind == .string).map fun t => (t.start, t.stop) := by
  induction h with
  | @done before bs hbs =>
    have hstrings := stringsFrom_append (before.length + 1) [] fun b hb => not_quote_of_isBlank (hbs b hb)
    rw [List.append_nil] at hstrings
    rw [hstrings, stringsFrom, spans]
    rfl
  | @token before bs lex rest kind value ts hbs hcut _ ih =>
    rw [← List.append_assoc, ← List.append_assoc] at hline
    have hplace := place_of_not_mem fun hmem => hline (List.mem_append_left _ (List.mem_append_left _ hmem))
    have hplace' := place_of_not_mem fun hmem => hline (List.mem_append_left _ hmem)
    have hcolumn : before.length + 1 + bs.length = (before ++ bs).length + 1 := by
      simp only [List.length_append]
      omega
    have hcolumn' : (before ++ bs).length + 1 + lex.length = (before ++ bs ++ lex).length + 1 := by
      simp only [List.length_append]
      omega
    rw [stringsFrom_append _ _ fun b hb => not_quote_of_isBlank (hbs b hb), hcut.lexeme.stringsFrom_append, hcolumn, hcolumn',
      ih hline, hplace, hplace', List.filter_cons]
    by_cases hkind : kind = .string
    · rw [if_pos hkind, if_pos (beq_iff_eq.2 hkind), List.map_cons, List.singleton_append]
    · rw [if_neg hkind, if_neg (by simpa using hkind), List.nil_append]

end Lexical

/-- The spans of a line that start with a quote are its string literals, in order and with the same columns, if the line by itself can be
cut into tokens. -/
theorem quoted_spans_are_strings {text : String} {tokens : List Token} (hline : '\n' ∉ text.toList)
    (h : (Source.ofString text).tokenize = .ok tokens) :
    TextLine.quotedPlaces 1 (Highlight.line text) = (tokens.filter fun t => t.kind == .string).map fun t => (t.start, t.stop) := by
  have hcuts : Lexical.Cuts [] text.toList tokens := Source.cuts_of_tokenize h
  exact hcuts.stringsFrom_eq hline

/-- A line with a string that ends in an escaped backslash, and one with the other quote in it. -/
def Sample.escapedLine : String := "a='\\\\'+\"'\";"

/-- Its tokens. -/
def Sample.escapedTokens : List Token :=
  [⟨.name, .text "a", ⟨1, 1⟩, ⟨1, 2⟩⟩, ⟨.assign, .empty, ⟨1, 2⟩, ⟨1, 3⟩⟩, ⟨.string, .text "\\", ⟨1, 3⟩, ⟨1, 7⟩⟩,
    ⟨.plus, .empty, ⟨1, 7⟩, ⟨1, 8⟩⟩, ⟨.string, .text "'", ⟨1, 8⟩, ⟨1, 11⟩⟩, ⟨.semicolon, .empty, ⟨1, 11⟩, ⟨1, 12⟩⟩, .endAt ⟨1, 12⟩]

/-- Two strings with escapes and quotes in them are found in the same columns. -/
theorem quoted_spans_escaped :
    '\n' ∉ Sample.escapedLine.toList ∧ (Source.ofString Sample.escapedLine).tokenize = .ok Sample.escapedTokens ∧
      TextLine.quotedPlaces 1 (Highlight.line Sample.escapedLine) = [(⟨1, 3⟩, ⟨1, 7⟩), (⟨1, 8⟩, ⟨1, 11⟩)] := by
  have hline : '\n' ∉ Sample.escapedLine.toList := by decide
  have htokens : (Source.ofString Sample.escapedLine).tokenize = .ok Sample.escapedTokens := by decide +kernel
  exact ⟨hline, htokens, quoted_spans_are_strings hline htokens⟩

end C0Stack
