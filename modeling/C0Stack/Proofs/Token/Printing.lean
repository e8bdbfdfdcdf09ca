import C0Stack.Proofs.Token.Cutting

/-!
# Printing tokens

Tokens that are printed with white space between them are read back as they were (`tokenize_printed`). A string may be printed between
either kind of quotes, and line feeds, tabs and carriage returns in it with their short names or as they are; a backslash in front of
every backslash and every quote of that kind is what keeps the string from ending early, or the reader from taking two characters for an
escape that nobody wrote.
-/

namespace C0Stack

namespace Lexical

open Lexing

/-! ## Lexemes in front of white space -/

/-- The text is empty or starts with white space. -/
def Apart (rest : List Char) : Prop := ∀ c ∈ rest.head?, Text.isBlank c = true

section

variable {rest : List Char}

/-- No character of a class without white space follows. -/
theorem Apart.not_starts {p : Char → Bool} (h : Apart rest) (hp : ∀ c, Text.isBlank c = true → p c = false) : ¬ Starts p rest := by
  rintro ⟨c, tail, rfl, hc⟩
  rw [hp c (h c rfl)] at hc
  cases hc

/-- No character other than white space follows. -/
theorem Apart.not_starts_beq {d : Char} (h : Apart rest) (hd : Text.isBlank d = false) : ¬ Starts (· == d) rest := by
  refine h.not_starts ?_
  intro c hc
  rw [beq_eq_false_iff_ne]
  rintro rfl
  rw [hd] at hc
  cases hc

/-- No digit follows. -/
theorem Apart.not_starts_isDigit (h : Apart rest) : ¬ Starts Char.isDigit rest := by
  refine h.not_starts ?_
  intro c hc
  rw [Bool.eq_false_iff]
  intro hdigit
  rw [isBlank_of_isDigit hdigit] at hc
  cases hc

/-- No mark of an exponent follows. -/
theorem Apart.not_starts_isMark (h : Apart rest) : ¬ Starts isMark rest := by
  refine h.not_starts ?_
  intro c hc
  rw [Bool.eq_false_iff]
  intro hmark
  rcases isMark_iff.1 hmark with rfl | rfl <;> exact absurd hc (by decide)

/-- A word in front of white space may be cut. -/
theorem Word.cut {cs : List Char} {kind : Token.Kind} {value : Token.Value} (hword : Word cs) (h : Lexeme cs kind value)
    (hrest : Apart rest) : Cut cs rest kind value := by
  have hlong : Longest cs rest := longest_word hword (hrest.not_starts fun c hc => isNamePart_of_isBlank hc)
  refine .of_not_starts h hlong ?_
  cases cs with
  | nil => exact hword.elim
  | cons c cs =>
    refine not_starts_cons ?_ _
    rw [Bool.eq_false_iff]
    intro hdigit
    have hstart := hword.1
    rw [isNameStart_of_isDigit hdigit] at hstart
    cases hstart

/-- A symbol in front of white space is the longest lexeme. -/
theorem Symbol.longest {cs : List Char} {kind : Token.Kind} (h : Symbol cs kind) (hrest : Apart rest) : Longest cs rest := by
  cases h with
  | single hc => exact longest_single hc rest
  | long _ hc => exact longest_long hc rest
  | @short c d kind long _ hc =>
    have hd : Text.isBlank d = false := by
      unfold paired? at hc
      split at hc <;> cases hc <;> decide
    exact longest_short hc (hrest.not_starts_beq hd)

/-- A lexeme in front of white space is the token there, if it is not an integer that is too large. -/
theorem Lexeme.cut {lex : List Char} {kind : Token.Kind} {value : Token.Value} (h : Lexeme lex kind value) (hrest : Apart rest)
    (hfits : kind = .integer → decimal lex < 2 ^ 64) : Cut lex rest kind value := by
  cases h with
  | integer hds => exact cut_integer hds hrest.not_starts_isDigit (hrest.not_starts_beq (by decide)) (hfits rfl)
  | double hds hfs hes => exact cut_double hds hfs hes (fun _ => hrest.not_starts_isMark) hrest.not_starts_isDigit
  | @string quote raw text hquote htext =>
    have hdigit : quote.isDigit = false := by rcases hquote with rfl | rfl <;> rfl
    exact .of_not_starts (.string hquote htext) (longest_string hquote htext rest) (not_starts_cons hdigit _)
  | @name c cs hc hcs hword => exact Word.cut ⟨hc, hcs⟩ (.name hc hcs hword) hrest
  | @fixed _ s hs =>
    rcases word_or_symbol hs with ⟨hword, -⟩ | hsymbol
    · exact hword.cut (.fixed hs) hrest
    · refine .of_not_starts (.fixed hs) (hsymbol.longest hrest) ?_
      obtain ⟨c, tail, hcs, hc⟩ := hsymbol.exists_cons
      rw [hcs]
      exact not_starts_cons (symbol_start hc).1 _

end

/-! ## Strings -/

/-- The quotes around a string. -/
inductive QuoteMark where
  | single
  | double
deriving DecidableEq, Repr

def QuoteMark.char : QuoteMark → Char
  | single => '\''
  | double => '"'

/-- The quotes around a string are one of two characters. -/
theorem QuoteMark.char_eq (quote : QuoteMark) : quote.char = '"' ∨ quote.char = '\'' := by
  cases quote with
  | single => exact .inr rfl
  | double => exact .inl rfl

/-- A character of a string, and whether it is to be printed with its short name, if it has one. -/
structure Letter where
  char : Char
  short : Bool
deriving DecidableEq, Repr

/-- The name that a character has behind a backslash. -/
def shortName? : Char → Option Char
  | '\n' => some 'n'
  | '\t' => some 't'
  | '\r' => some 'r'
  | _ => none

/-- The character as it stands in a string: a backslash goes in front of a backslash and of the quote that would end the string. -/
def Letter.printed (quote : QuoteMark) (l : Letter) : List Char :=
  if l.char = '\\' ∨ l.char = quote.char then ['\\', l.char]
  else
    match l.short, shortName? l.char with
    | true, some name => ['\\', name]
    | _, _ => [l.char]

/-- The escape of a character that has to be escaped stands for the character. -/
theorem escapeValue_of_escaped {quote : QuoteMark} {c : Char} (h : c = '\\' ∨ c = quote.char) : escapeValue c = [c] := by
  rcases h with rfl | rfl
  · rfl
  · cases quote <;> rfl

/-- The escape with a short name stands for the character of that name. -/
theorem escapeValue_of_shortName? {c name : Char} (h : shortName? c = some name) : escapeValue name = [c] := by
  unfold shortName? at h
  split at h <;> cases h <;> rfl

/-- A printed character is read back as that character, whatever comes behind it. -/
theorem Letter.quoted (quote : QuoteMark) (l : Letter) {raw text : List Char} (h : Quoted quote.char raw text) :
    Quoted quote.char (l.printed quote ++ raw) (l.char :: text) := by
  have hescape : ∀ name, escapeValue name = [l.char] → Quoted quote.char (['\\', name] ++ raw) (l.char :: text) := by
    intro name hname
    have hquoted := h.escape (c := name)
    rwa [hname] at hquoted
  unfold Letter.printed
  split
  case isTrue hc => exact hescape l.char (escapeValue_of_escaped hc)
  case isFalse hc =>
    split
    · rename_i name _ hname
      exact hescape name (escapeValue_of_shortName? hname)
    · exact h.plain (fun hquote => hc (.inr hquote)) (fun hback => hc (.inl hback))

/-- The characters of a string are printed so that they are read back. -/
theorem quoted_letters (quote : QuoteMark) (letters : List Letter) :
    Quoted quote.char (letters.flatMap (Letter.printed quote)) (letters.map Letter.char) := by
  induction letters with
  | nil => exact .nil
  | cons l letters ih =>
    rw [List.flatMap_cons, List.map_cons]
    exact l.quoted quote ih

/-! ## Tokens -/

/-- A token to print: one with a fixed spelling, a name that is not a keyword, an integer, or a string in either kind of quotes. -/
inductive Printable where
  | fixed (kind : Token.Kind) (hkind : kind.spelling.isSome)
  | name (word : String) (hword : Word word.toList) (hname : Token.Kind.keyword? word = none)
  | integer (n : UInt64)
  | string (quote : QuoteMark) (letters : List Letter)

namespace Printable

/-- The characters that the token is printed as. -/
def chars : Printable → List Char
  | fixed kind hkind => (kind.spelling.get hkind).toList
  | name word _ _ => word.toList
  | integer n => (toString n.toNat).toList
  | string quote letters => quote.char :: (letters.flatMap (Letter.printed quote) ++ [quote.char])

/-- The kind of the token and what it holds. -/
def content : Printable → Token.Kind × Token.Value
  | fixed kind _ => (kind, .empty)
  | name word _ _ => (.name, .text word)
  | integer n => (.integer, .integer n)
  | string _ letters => (.string, .text (String.ofList (letters.map Letter.char)))

end Printable

/-- A number is the value of its decimal digits. -/
theorem decimal_toString (n : Nat) : Digits (toString n).toList ∧ decimal (toString n).toList = n := by
  rw [Nat.toString_eq_ofList_toDigits, String.toList_ofList]
  refine ⟨⟨Nat.toDigits_ne_nil, ?_⟩, ?_⟩
  · intro d hd
    exact Nat.isDigit_of_mem_toDigits (by decide) (by decide) hd
  · rw [← decimalValue_eq]
    have hvalue : Nat.ofDigitChars 10 (Nat.toDigits 10 n) 0 = n := Nat.ofDigitChars_ten_toDigits
    rwa [Nat.ofDigitChars_eq_foldl] at hvalue

/-- A printed token is a lexeme of its kind and value. -/
theorem Printable.lexeme (t : Printable) : Lexeme t.chars t.content.1 t.content.2 := by
  cases t with
  | fixed kind hkind => exact .fixed (Option.some_get hkind).symm
  | name word hword hname =>
    have hlexeme := hword.lexeme
    unfold wordToken at hlexeme
    rwa [String.ofList_toList, hname] at hlexeme
  | integer n =>
    obtain ⟨hdigits, hvalue⟩ := decimal_toString n.toNat
    have hlexeme := Lexeme.integer hdigits
    rwa [hvalue, Nat.toUInt64_eq, UInt64.ofNat_toNat] at hlexeme
  | string quote letters => exact .string quote.char_eq (quoted_letters quote letters)

/-- A printed token in front of white space may be cut. -/
theorem Printable.cut (t : Printable) {rest : List Char} (hrest : Apart rest) : Cut t.chars rest t.content.1 t.content.2 := by
  refine t.lexeme.cut hrest ?_
  cases t with
  | fixed kind hkind =>
    rintro (rfl : kind = .integer)
    cases hkind
  | name | string =>
    intro hkind
    cases hkind
  | integer n =>
    intro _
    have hvalue : decimal (Printable.integer n).chars = n.toNat := (decimal_toString n.toNat).2
    rw [hvalue]
    exact n.toNat_lt

/-! ## Texts -/

/-- White space between two tokens: at least one character. -/
structure Gap where
  chars : List Char
  ne_nil : chars ≠ []
  blank : ∀ c ∈ chars, Text.isBlank c = true

/-- The printed tokens with white space in front of each. The white space `gap n` has `n` more tokens behind its own. -/
def spaced (gap : Nat → Gap) : List Printable → List Char
  | [] => []
  | t :: ts => (gap ts.length).chars ++ (t.chars ++ spaced gap ts)

/-- The printed tokens with white space between them. -/
def printed (gap : Nat → Gap) : List Printable → List Char
  | [] => []
  | t :: ts => t.chars ++ spaced gap ts

/-- What is printed with white space in front starts with white space. -/
theorem apart_spaced (gap : Nat → Gap) (ts : List Printable) : Apart (spaced gap ts) := by
  cases ts with
  | nil =>
    intro c hc
    cases hc
  | cons t ts =>
    obtain ⟨b, bs, hbs⟩ := List.exists_cons_of_ne_nil (gap ts.length).ne_nil
    intro c hc
    rw [spaced, hbs, List.cons_append, List.head?_cons] at hc
    obtain rfl := Option.mem_some.1 hc
    exact (gap ts.length).blank b (hbs ▸ List.mem_cons_self)

/-- The text behind `before` has tokens with the contents, and then it ends. -/
def Holds (before cs : List Char) (contents : List (Token.Kind × Token.Value)) : Prop :=
  ∃ tokens : List Token, Cuts before cs (tokens ++ [Token.endAt (place (before ++ cs))]) ∧
    tokens.map (fun token => (token.kind, token.value)) = contents

/-- One more token in front. -/
theorem Holds.cons {before bs lex rest : List Char} {kind : Token.Kind} {value : Token.Value}
    {contents : List (Token.Kind × Token.Value)}
    (hbs : ∀ b ∈ bs, Text.isBlank b = true) (hcut : Cut lex rest kind value) (h : Holds (before ++ bs ++ lex) rest contents) :
    Holds before (bs ++ (lex ++ rest)) ((kind, value) :: contents) := by
  obtain ⟨tokens, hcuts, rfl⟩ := h
  refine ⟨⟨kind, value, place (before ++ bs), place (before ++ bs ++ lex)⟩ :: tokens, ?_, rfl⟩
  have hall : Cuts before (bs ++ (lex ++ rest)) _ := .token hbs hcut hcuts
  simpa only [List.append_assoc, List.cons_append] using hall

/-- Tokens that are printed with white space in front are held by the text. -/
theorem holds_spaced (gap : Nat → Gap) (ts : List Printable) (before : List Char) :
    Holds before (spaced gap ts) (ts.map Printable.content) := by
  induction ts generalizing before with
  | nil => exact ⟨[], .done (List.forall_mem_nil _), rfl⟩
  | cons t ts ih => exact .cons (gap ts.length).blank (t.cut (apart_spaced gap ts)) (ih _)

/-- So are tokens that are printed with white space between them. -/
theorem holds_printed (gap : Nat → Gap) (ts : List Printable) : Holds [] (printed gap ts) (ts.map Printable.content) := by
  cases ts with
  | nil => exact ⟨[], .done (List.forall_mem_nil _), rfl⟩
  | cons t ts =>
    have hall := Holds.cons (List.forall_mem_nil _) (t.cut (apart_spaced gap ts)) (holds_spaced gap ts ([] ++ [] ++ t.chars))
    exact hall

/-! ## Fixed spellings -/

/-- A word is no symbol. -/
theorem Word.not_symbol {cs : List Char} {kind : Token.Kind} (hword : Word cs) : ¬ Symbol cs kind := by
  intro hsymbol
  obtain ⟨c, tail, rfl, hc⟩ := hsymbol.exists_cons
  have hstart := hword.1
  rw [(symbol_start hc).2.1] at hstart
  cases hstart

/-- The keywords are the words among the fixed spellings. -/
theorem keyword?_eq_some_iff (kind : Token.Kind) (s : String) :
    Token.Kind.keyword? s = some kind ↔ kind.spelling = some s ∧ Word s.toList := by
  constructor
  · intro h
    have hs : kind.spelling = some s := beq_iff_eq.1 (List.find?_some (p := fun k : Token.Kind => k.spelling == some s) h)
    refine ⟨hs, ?_⟩
    rcases word_or_symbol hs with ⟨hword, -⟩ | hsymbol
    · exact hword
    · have hmem : kind ∈ Token.Kind.keywords := List.mem_of_find?_eq_some h
      have hwords : ∀ k ∈ Token.Kind.keywords, ∃ w, k.spelling = some w ∧ (w.toList.head?.map isNameStart) = some true := by
        decide
      obtain ⟨w, hw, hstart⟩ := hwords kind hmem
      cases hs.symm.trans hw
      obtain ⟨c, tail, hcs, hc⟩ := hsymbol.exists_cons
      rw [hcs, List.head?_cons, Option.map_some, (symbol_start hc).2.1] at hstart
      cases hstart
  · rintro ⟨hs, hword⟩
    rcases word_or_symbol hs with ⟨-, htoken⟩ | hsymbol
    · unfold wordToken at htoken
      split at htoken
      · rename_i k hk
        cases htoken
        exact hk
      · cases htoken
    · exact absurd hsymbol hword.not_symbol

/-- Behind at least one character the place is another one. -/
theorem place_append_cons_ne (before : List Char) (c : Char) (cs : List Char) : place (before ++ c :: cs) ≠ place before := by
  intro h
  have hlt := Position.lt_advanceAll_cons (place before) c cs
  rw [advanceAll_place, h, Position.lt_iff] at hlt
  omega

/-- The first of several tokens is cut from the text behind some white space. -/
theorem Cuts.exists_cut {before cs : List Char} {t t' : Token} {ts : List Token} (h : Cuts before cs (t :: t' :: ts)) :
    ∃ bs lex rest, cs = bs ++ (lex ++ rest) ∧ Cut lex rest t.kind t.value ∧ t.start = place (before ++ bs) ∧
      t.stop = place (before ++ bs ++ lex) := by
  cases h with
  | @token _ bs lex rest kind value ts _ hcut _ => exact ⟨bs, lex, rest, rfl, hcut, rfl, rfl⟩

/-- A text is the fixed spelling of a kind exactly if it is read as one token of that kind, from its first to its last character. -/
theorem spelling_eq_some_iff (kind : Token.Kind) (s : String) :
    kind.spelling = some s ↔ (Source.ofString s).tokenize =
      .ok [⟨kind, .empty, .start, place s.toList⟩, Token.endAt (place s.toList)] := by
  have hsource : Source.ofString s = ⟨s.toList, [], place []⟩ := rfl
  rw [hsource, show Position.start = place [] from rfl]
  constructor
  · intro hs
    have hrest : Apart [] := by
      intro c hc
      cases hc
    have hinteger : kind ≠ .integer := by
      rintro rfl
      cases hs
    have hcut := (Lexeme.fixed hs).cut hrest fun h => absurd h hinteger
    have hcuts : Cuts [] ([] ++ (s.toList ++ [])) _ := .token (List.forall_mem_nil _) hcut (.done (List.forall_mem_nil _))
    simpa using Source.tokenize_of_cuts hcuts
  · intro h
    obtain ⟨bs, lex, rest, hcs, hcut, hstart, hstop⟩ := (Source.cuts_of_tokenize h).exists_cut
    -- The token starts where the text does and ends where it ends, so that its lexeme is all there is.
    have hbs : bs = [] := by
      cases bs with
      | nil => rfl
      | cons b bs => exact absurd hstart.symm (place_append_cons_ne [] b bs)
    subst hbs
    have hrest : rest = [] := by
      cases rest with
      | nil => rfl
      | cons c rest =>
        rw [hcs] at hstop
        exact absurd hstop (place_append_cons_ne lex c rest)
    subst hrest
    rw [List.nil_append, List.append_nil] at hcs
    have hlexeme : Lexeme s.toList kind .empty := hcs ▸ hcut.lexeme
    generalize hword : s.toList = word at hlexeme
    cases hlexeme with
    | fixed hs => rwa [String.toList_inj.1 hword]

end Lexical

open Lexical

/-- Printed tokens are read back, followed by the end of the text; and the fixed spellings are those that the reader goes by. -/
theorem tokenize_printed (gap : Nat → Gap) (ts : List Printable) :
    (∃ tokens : List Token,
      (Source.ofString (String.ofList (printed gap ts))).tokenize = .ok (tokens ++ [Token.endAt (place (printed gap ts))]) ∧
        tokens.map (fun token => (token.kind, token.value)) = ts.map Printable.content) ∧
      ∀ (kind : Token.Kind) (s : String),
        (kind.spelling = some s ↔
          (Source.ofString s).tokenize = .ok [⟨kind, .empty, .start, place s.toList⟩, Token.endAt (place s.toList)]) ∧
        (Token.Kind.keyword? s = some kind ↔ kind.spelling = some s ∧ Word s.toList) := by
  refine ⟨?_, fun kind s => ⟨spelling_eq_some_iff kind s, keyword?_eq_some_iff kind s⟩⟩
  obtain ⟨tokens, hcuts, hcontent⟩ := holds_printed gap ts
  have hsource : Source.ofString (String.ofList (printed gap ts)) = ⟨printed gap ts, [], place []⟩ := by
    rw [Source.ofString, String.toList_ofList]
    rfl
  refine ⟨tokens, ?_, hcontent⟩
  rw [hsource]
  exact Source.tokenize_of_cuts hcuts

end C0Stack
