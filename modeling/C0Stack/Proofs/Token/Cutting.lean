import Mathlib.Data.List.Induction
import C0Stack.Proofs.Token.Lexemes

/-!
# Cutting a text into lexemes

A text is cut into its longest lexemes, from left to right and with white space between them (`Lexical.Cuts`). At each place the reader
takes the one lexeme that may be cut there, and it fails exactly where there is none (`Lexical.Settles`).
-/

namespace C0Stack

namespace Lexical

open Lexing

/-! ## The cut at one place -/

/-- The text starts with digits and a point that no digit follows. -/
def PointAlone (cs : List Char) : Prop := ∃ ds rest, Digits ds ∧ cs = ds ++ '.' :: rest ∧ ¬ Starts Char.isDigit rest

/-- The text starts with a fraction and the mark of an exponent that does not go on with digits. -/
def MarkAlone (cs : List Char) : Prop :=
  ∃ ds fs mark rest, Digits ds ∧ Digits fs ∧ isMark mark = true ∧ cs = ds ++ '.' :: (fs ++ mark :: rest) ∧
    ∀ es e, Exponent es e → es <+: mark :: rest → es = []

/-- The lexeme may be cut from the text `lex ++ rest`: no lexeme there is longer, an integer fits in 64 bits, and the text does not start
with a number that breaks off. -/
structure Cut (lex rest : List Char) (kind : Token.Kind) (value : Token.Value) : Prop where
  lexeme : Lexeme lex kind value
  longest : Longest lex rest
  fits : kind = .integer → decimal lex < 2 ^ 64
  point : ¬ PointAlone (lex ++ rest)
  mark : ¬ MarkAlone (lex ++ rest)

section

variable {lex lex' rest rest' : List Char} {kind kind' : Token.Kind} {value value' : Token.Value}

/-- A text has one longest lexeme. -/
theorem Longest.unique (hlex : Lexeme lex kind value) (h : Longest lex rest) (hlex' : Lexeme lex' kind' value')
    (h' : Longest lex' rest') (heq : lex' ++ rest' = lex ++ rest) : lex' = lex ∧ rest' = rest := by
  have hle := h lex' kind' value' hlex' ⟨rest', heq⟩
  have hge := h' lex kind value hlex ⟨rest, heq.symm⟩
  exact List.append_inj heq (Nat.le_antisymm hle hge)

/-- At most one lexeme may be cut from a text. -/
theorem Cut.unique (h : Cut lex rest kind value) (h' : Cut lex' rest' kind' value') (heq : lex' ++ rest' = lex ++ rest) :
    lex' = lex ∧ rest' = rest ∧ kind' = kind ∧ value' = value := by
  obtain ⟨rfl, rfl⟩ := h.longest.unique h.lexeme h'.lexeme h'.longest heq
  exact ⟨rfl, rfl, h.lexeme.unique h'.lexeme⟩

/-- A point that stands alone has digits in front. -/
theorem PointAlone.starts {cs : List Char} (h : PointAlone cs) : Starts Char.isDigit cs := by
  obtain ⟨ds, rest, hds, rfl, -⟩ := h
  exact hds.starts _

theorem MarkAlone.starts {cs : List Char} (h : MarkAlone cs) : Starts Char.isDigit cs := by
  obtain ⟨ds, fs, mark, rest, hds, -, -, rfl, -⟩ := h
  exact hds.starts _

/-- What is not a number may be cut wherever it is the longest lexeme. -/
theorem Cut.of_not_starts (hlex : Lexeme lex kind value) (hlong : Longest lex rest) (hstart : ¬ Starts Char.isDigit (lex ++ rest)) :
    Cut lex rest kind value := by
  refine ⟨hlex, hlong, ?_, fun h => hstart h.starts, fun h => hstart h.starts⟩
  rintro rfl
  cases hlex with
  | integer hds => exact absurd (hds.starts rest) hstart
  | fixed hs => cases hs

end

section

variable {ds fs es rest : List Char}

/-- An integer that fits in 64 bits may be cut if neither a digit nor a point follows. -/
theorem cut_integer (hds : Digits ds) (hdigit : ¬ Starts Char.isDigit rest) (hpoint : ¬ Starts (· == '.') rest)
    (hfits : decimal ds < 2 ^ 64) : Cut ds rest .integer (.integer (decimal ds).toUInt64) := by
  -- A number that breaks off has its point right behind the digits.
  have habsurd : ∀ ds' tail, Digits ds' → ds ++ rest ≠ ds' ++ '.' :: tail := by
    intro ds' tail hds' heq
    obtain ⟨-, rfl⟩ := run_unique hds'.2 (not_starts_cons rfl tail) hds.2 hdigit heq
    exact hpoint (starts_cons.2 rfl)
  refine ⟨.integer hds, longest_integer hds hdigit hpoint, fun _ => hfits, ?_, ?_⟩
  · rintro ⟨ds', tail, hds', heq, -⟩
    exact habsurd ds' tail hds' heq
  · rintro ⟨ds', fs', mark, tail, hds', -, -, heq, -⟩
    exact habsurd ds' _ hds' heq

/-- A number with a fraction may be cut if no digit follows, and no mark where it has no exponent. -/
theorem cut_double {e : Int} (hds : Digits ds) (hfs : Digits fs) (hes : Exponent es e) (hmark : es = [] → ¬ Starts isMark rest)
    (hdigit : ¬ Starts Char.isDigit rest) :
    Cut (ds ++ '.' :: (fs ++ es)) rest .double (.double (.ofDecimal ⟨decimal (ds ++ fs), e - fs.length⟩)) := by
  refine ⟨.double hds hfs hes, longest_double hds hfs hes hmark hdigit, fun h => absurd h (by decide), ?_, ?_⟩
  · rintro ⟨ds', tail, hds', heq, htail⟩
    simp only [List.append_assoc, List.cons_append] at heq
    obtain ⟨-, rfl⟩ := hds'.point_unique hds heq
    exact htail (hfs.starts _)
  · rintro ⟨ds', fs', mark, tail, hds', hfs', hmark', heq, hnone⟩
    simp only [List.append_assoc, List.cons_append] at heq
    obtain ⟨-, heq⟩ := hds'.point_unique hds heq
    obtain ⟨-, heq⟩ := run_unique hfs'.2 (not_starts_cons (isDigit_of_isMark hmark') tail) hfs.2 (hes.not_starts hdigit) heq
    have hnil := hnone es e hes ⟨rest, heq⟩
    exact hmark hnil ⟨mark, tail, by rw [← heq, hnil, List.nil_append], hmark'⟩

end

/-! ## What a read gives -/

section

variable {p : Char → Bool}

/-- A read takes the run that the text starts with. -/
theorem read_takeWhile {ds rest : List Char} (hds : ∀ d ∈ ds, p d = true) (hrest : ¬ Starts p rest) (pos : Position) :
    (Lexing.read (Source.takeWhile p)).on ⟨ds ++ rest, [], pos⟩ = (.ok ds, ⟨rest, [], pos.advanceAll ds⟩) := by
  obtain ⟨htake, hdrop⟩ := takeWhile_run hds hrest
  unfold Lexing.on Lexing.read
  rw [Source.takeWhile_eq, htake, hdrop]

/-- A read takes the next character if it is of the class. -/
theorem read_nextIf_of_starts {c : Char} (hc : p c = true) (rest : List Char) (pos : Position) :
    (Lexing.read (Source.nextIf p)).on ⟨c :: rest, [], pos⟩ = (.ok (some c), ⟨rest, [], pos.advance c⟩) := by
  unfold Lexing.on Lexing.read
  rw [Source.nextIf_cons, if_pos hc]

/-- Otherwise it takes none. -/
theorem read_nextIf_of_not_starts {rest : List Char} (hrest : ¬ Starts p rest) (pos : Position) :
    (Lexing.read (Source.nextIf p)).on ⟨rest, [], pos⟩ = (.ok none, ⟨rest, [], pos⟩) := by
  unfold Lexing.on Lexing.read
  cases rest with
  | nil => rw [Source.nextIf_nil]
  | cons c rest =>
    rw [starts_cons] at hrest
    rw [Source.nextIf_cons, if_neg hrest]

end

/-- The digits are evaluated from left to right. -/
theorem decimalValue_eq (ds : List Char) : decimalValue ds = decimal ds := by
  unfold decimalValue decimal
  rw [Nat.ofDigits_eq_foldr, List.foldr_map, ← List.foldl_eq_foldr_reverse]
  congr 1
  funext n c
  simp [Nat.add_comm]

/-- The outcome of reading a token at the start of the text: the token that may be cut there, or a fault if there is none. -/
def Settles (text : List Char) (start : Position) (r : Except LexError Token × Source) : Prop :=
  (∃ lex rest kind value, text = lex ++ rest ∧ Cut lex rest kind value ∧
    r = (.ok ⟨kind, value, start, start.advanceAll lex⟩, ⟨rest, [], start.advanceAll lex⟩)) ∨
  (∃ e s, r = (.error e, s)) ∧ ∀ lex rest kind value, text = lex ++ rest → ¬ Cut lex rest kind value

/-- A step in front that succeeds does not change the outcome. -/
theorem Settles.bind {text : List Char} {start : Position} {α : Type} {m : Lexing α} {k : α → Lexing Token} {s s' : Source} {a : α}
    (hm : m.on s = (.ok a, s')) (hk : Settles text start ((k a).on s')) : Settles text start ((m >>= k).on s) := by
  rw [on_bind, hm]
  exact hk

/-- A token that is finished behind a lexeme that may be cut. -/
theorem Settles.finish {lex rest : List Char} {kind : Token.Kind} {value : Token.Value} (h : Cut lex rest kind value)
    (start : Position) :
    Settles (lex ++ rest) start ((Lexing.finish kind value start).on ⟨rest, [], start.advanceAll lex⟩) :=
  .inl ⟨lex, rest, kind, value, rfl, h, rfl⟩

/-- A fault where no lexeme may be cut. -/
theorem Settles.fail {text : List Char} (h : ∀ lex rest kind value, text = lex ++ rest → ¬ Cut lex rest kind value)
    (fault : LexFault) (start pos : Position) (s : Source) : Settles text start ((Lexing.fail fault pos).on s) :=
  .inr ⟨⟨_, _, rfl⟩, h⟩

/-! ## Numbers -/

/-- If no digit comes behind the mark and what sign there is, then no exponent starts at the mark. -/
theorem exponent_eq_nil {mark : Char} {sign : Option Char} {rest : List Char} (hsign : ∀ c ∈ sign.toList, isSign c = true)
    (hnone : sign = none → ¬ Starts isSign rest) (hrest : ¬ Starts Char.isDigit rest) {es : List Char} {e : Int}
    (hes : Exponent es e) (hpre : es <+: mark :: (sign.toList ++ rest)) : es = [] := by
  rcases exponent_iff.1 hes with ⟨rfl, -⟩ | ⟨mark', sign', ds, -, hsign', hds, rfl, -⟩
  · rfl
  obtain ⟨tail, htail⟩ := (List.cons_prefix_cons.1 hpre).2
  rw [List.append_assoc] at htail
  obtain ⟨d, ds, rfl, hd, -⟩ := hds.exists_cons
  cases sign with
  | none =>
    cases sign' with
    | none => exact absurd ⟨d, ds ++ tail, htail.symm, hd⟩ hrest
    | some c' => exact absurd ⟨c', d :: ds ++ tail, htail.symm, hsign' c' (by simp)⟩ (hnone rfl)
  | some c =>
    cases sign' with
    | none =>
      obtain ⟨rfl, -⟩ := List.cons.inj htail
      have hsign := hsign d (by simp)
      rw [isSign_of_isDigit hd] at hsign
      cases hsign
    | some c' => exact absurd ⟨d, ds ++ tail, (List.cons.inj htail).2.symm, hd⟩ hrest

/-- A read that takes at most one character of the class. -/
theorem exists_nextIf (p : Char → Bool) (cs : List Char) (pos : Position) :
    ∃ o : Option Char, ∃ rest, cs = o.toList ++ rest ∧ (∀ c ∈ o.toList, p c = true) ∧ (o = none → ¬ Starts p rest) ∧
      (Lexing.read (Source.nextIf p)).on ⟨cs, [], pos⟩ = (.ok o, ⟨rest, [], pos.advanceAll o.toList⟩) := by
  by_cases h : Starts p cs
  · obtain ⟨c, rest, rfl, hc⟩ := h
    exact ⟨some c, rest, rfl, by simpa using hc, fun h => absurd h (Option.some_ne_none c), read_nextIf_of_starts hc rest pos⟩
  · exact ⟨none, cs, rfl, List.forall_mem_nil _, fun _ => h, read_nextIf_of_not_starts h pos⟩

section

variable {ds fs rest : List Char}

/-- The value of a number with a fraction and an exponent. -/
theorem doubleValue_eq (ds fs : List Char) (sign : Option Char) (es : List Char) :
    doubleValue ds fs (sign == some '-') es = .ofDecimal ⟨decimal (ds ++ fs), scale sign es - fs.length⟩ := by
  unfold doubleValue scale
  rw [decimalValue_eq, decimalValue_eq]

/-- The exponent of a number is read, or it breaks off. -/
theorem Settles.exponent (hds : Digits ds) (hfs : Digits fs) (hrest : ¬ Starts Char.isDigit rest) (start : Position) :
    Settles (ds ++ '.' :: (fs ++ rest)) start ((Lexing.exponent ds fs start).on ⟨rest, [], start.advanceAll (ds ++ '.' :: fs)⟩) := by
  by_cases hmark : Starts isMark rest
  · obtain ⟨mark, rest, rfl, hmark⟩ := hmark
    refine .bind (read_nextIf_of_starts (p := isMark) hmark _ _) ?_
    obtain ⟨sign, rest, rfl, hsign, hnone, hread⟩ := exists_nextIf isSign rest ((start.advanceAll (ds ++ '.' :: fs)).advance mark)
    refine .bind hread ?_
    obtain ⟨es, rest, rfl, hes, htail⟩ := exists_run Char.isDigit rest
    refine .bind (read_takeWhile hes htail _) ?_
    split
    case isTrue hnil =>
      obtain rfl := List.isEmpty_iff.1 hnil
      refine .fail ?_ _ _ _ _
      intro lex tail kind value heq hcut
      exact hcut.mark (heq ▸ ⟨ds, fs, mark, _, hds, hfs, hmark, rfl, fun _ _ => exponent_eq_nil hsign hnone htail⟩)
    case isFalse hne =>
      have hds' : Digits es := ⟨fun hnil => hne (List.isEmpty_iff.2 hnil), hes⟩
      have hexponent := exponent_iff.2 (.inr ⟨mark, sign, es, hmark, hsign, hds', rfl, rfl⟩)
      have hfinish := Settles.finish (cut_double hds hfs hexponent (fun h => absurd h (List.cons_ne_nil _ _)) htail) start
      rw [doubleValue_eq]
      simpa only [List.append_assoc, List.cons_append, Position.advanceAll_append, Position.advanceAll_cons] using hfinish
  · refine .bind (read_nextIf_of_not_starts (p := isMark) hmark _) ?_
    have hfinish := Settles.finish (cut_double hds hfs .none (fun _ => hmark) hrest) start
    change Settles _ start ((Lexing.finish .double (.double (doubleValue ds fs (none == some '-') [])) start).on _)
    rw [doubleValue_eq, show scale none [] = 0 from rfl]
    simpa only [List.append_assoc, List.cons_append, List.append_nil] using hfinish

/-- A number is read, or none may be cut. -/
theorem Settles.number {c : Char} (hc : c.isDigit = true) (cs : List Char) (start : Position) :
    Settles (c :: cs) start ((Lexing.number c start).on ⟨cs, [], start.advance c⟩) := by
  obtain ⟨ds, rest, rfl, hds, hrest⟩ := exists_run Char.isDigit cs
  have hdigits : Digits (c :: ds) := ⟨List.cons_ne_nil c ds, List.forall_mem_cons.2 ⟨hc, hds⟩⟩
  refine .bind (read_takeWhile hds hrest _) ?_
  by_cases hpoint : Starts (· == '.') rest
  · obtain ⟨point, rest, rfl, hpoint⟩ := hpoint
    refine .bind (read_nextIf_of_starts (p := (· == '.')) hpoint _ _) ?_
    obtain rfl := beq_iff_eq.1 hpoint
    obtain ⟨fs, rest, rfl, hfs, htail⟩ := exists_run Char.isDigit rest
    refine .bind (read_takeWhile hfs htail _) ?_
    split
    case isTrue hnil =>
      obtain rfl := List.isEmpty_iff.1 hnil
      refine .fail ?_ _ _ _ _
      intro lex tail kind value heq hcut
      exact hcut.point (heq ▸ ⟨c :: ds, rest, hdigits, rfl, htail⟩)
    case isFalse hne =>
      have hfraction : Digits fs := ⟨fun hnil => hne (List.isEmpty_iff.2 hnil), hfs⟩
      have hexponent := Settles.exponent hdigits hfraction htail start
      simpa only [List.append_assoc, List.cons_append, Position.advanceAll_append, Position.advanceAll_cons] using hexponent
  · refine .bind (read_nextIf_of_not_starts (p := (· == '.')) hpoint _) ?_
    change Settles _ start ((Lexing.integer (c :: ds) start).on _)
    unfold Lexing.integer
    rw [decimalValue_eq]
    split
    case isTrue hfits => exact .finish (cut_integer hdigits hrest hpoint hfits) start
    case isFalse hlarge =>
      refine .fail ?_ _ _ _ _
      intro lex tail kind value heq hcut
      -- The lexeme could only be the integer itself.
      have hinteger := Lexeme.integer hdigits
      obtain ⟨rfl, -⟩ := (longest_integer hdigits hrest hpoint).unique hinteger hcut.lexeme hcut.longest heq.symm
      exact hlarge (hcut.fits (hinteger.unique hcut.lexeme).1)

end

/-! ## Words, strings and symbols -/

/-- A word is read. -/
theorem Settles.word {c : Char} (hdigit : c.isDigit = false) (hc : isNameStart c = true) (cs : List Char) (start : Position) :
    Settles (c :: cs) start ((Lexing.word c start).on ⟨cs, [], start.advance c⟩) := by
  obtain ⟨ds, rest, rfl, hds, hrest⟩ := exists_run isNamePart cs
  refine .bind (read_takeWhile hds hrest _) ?_
  have hword : Word (c :: ds) := ⟨hc, hds⟩
  have hfinish := Settles.finish (Cut.of_not_starts hword.lexeme (longest_word hword hrest) (not_starts_cons hdigit _)) start
  unfold wordToken at hfinish
  cases hkeyword : Token.Kind.keyword? (String.ofList (c :: ds)) with
  | some kind | none =>
    simp only [hkeyword] at hfinish ⊢
    exact hfinish

section

variable {quote : Char}

/-- The pairs behind backslashes are taken for what they stand for. -/
theorem unescape_eq {raw text : List Char} (h : Quoted quote raw text) : unescape raw = text := by
  induction h with
  | nil => rfl
  | @plain c raw text _ hback _ ih =>
    rw [unescape, ih]
    rintro d rest rfl
    exact absurd rfl hback
  | escape _ ih => rw [unescape, ih]

/-- The reader of a string stops at the quote that ends it. -/
theorem quotedChars_of_quoted (hquote : quote ≠ '\\') {raw text : List Char} (h : Quoted quote raw text) (rest : List Char)
    (pos : Position) :
    quotedChars quote false ⟨raw ++ quote :: rest, [], pos⟩ = (.ok (some raw), ⟨rest, [], pos.advanceAll (raw ++ [quote])⟩) := by
  induction h generalizing pos with
  | nil => rw [List.nil_append, quotedChars_cons, if_pos ⟨rfl, rfl⟩]; rfl
  | @plain c raw text hc hback _ ih =>
    have hescaped : (c == '\\' && !false) = false := by simp [hback]
    rw [List.cons_append, quotedChars_cons, if_neg (fun h => hc h.1), hescaped, ih]
    rfl
  | @escape c raw text _ ih =>
    rw [List.cons_append, List.cons_append, quotedChars_cons, if_neg (fun h => hquote h.1.symm),
      show ('\\' == '\\' && !false) = true from rfl, quotedChars_cons, if_neg (by simp), Bool.not_true, Bool.and_false, ih]
    rfl

/-- Without a closing quote the reader comes to the end of the text. -/
theorem quotedChars_eq_none (cs : List Char) (h : ∀ raw text rest, Quoted quote raw text → cs ≠ raw ++ quote :: rest)
    (pos : Position) :
    ∃ s, quotedChars quote false ⟨cs, [], pos⟩ = (.ok none, s) := by
  induction hlen : cs.length using Nat.strong_induction_on generalizing cs pos with
  | h n ih =>
    subst hlen
    cases cs with
    | nil => exact ⟨_, quotedChars_nil quote false pos⟩
    | cons c cs =>
      have hc : c ≠ quote := fun hc => h [] [] cs .nil (by rw [hc]; rfl)
      rw [quotedChars_cons, if_neg (fun h => hc h.1)]
      by_cases hback : c = '\\'
      · subst hback
        cases cs with
        | nil => exact ⟨_, by rw [quotedChars_nil]⟩
        | cons d cs =>
          have htail : ∀ raw text rest, Quoted quote raw text → cs ≠ raw ++ quote :: rest := by
            rintro raw text rest hraw rfl
            exact h ('\\' :: d :: raw) _ rest hraw.escape rfl
          obtain ⟨s, hs⟩ := ih cs.length (by simp only [List.length_cons]; omega) cs htail ((pos.advance '\\').advance d) rfl
          rw [show ('\\' == '\\' && !false) = true from rfl, quotedChars_cons, if_neg (by simp), Bool.not_true, Bool.and_false, hs]
          exact ⟨s, rfl⟩
      · have htail : ∀ raw text rest, Quoted quote raw text → cs ≠ raw ++ quote :: rest := by
          rintro raw text rest hraw rfl
          exact h (c :: raw) _ rest (hraw.plain hc hback) rfl
        obtain ⟨s, hs⟩ := ih cs.length (by simp) cs htail (pos.advance c) rfl
        have hescaped : (c == '\\' && !false) = false := by simp [hback]
        rw [hescaped, hs]
        exact ⟨s, rfl⟩

/-- A string is read, or it has no closing quote. -/
theorem Settles.string (hquote : quote = '"' ∨ quote = '\'') (cs : List Char) (start : Position) :
    Settles (quote :: cs) start ((Lexing.string quote start).on ⟨cs, [], start.advance quote⟩) := by
  have hback : quote ≠ '\\' := by rcases hquote with rfl | rfl <;> decide
  have hdigit : quote.isDigit = false := by rcases hquote with rfl | rfl <;> rfl
  by_cases h : ∃ raw text rest, Quoted quote raw text ∧ cs = raw ++ quote :: rest
  · obtain ⟨raw, text, rest, hraw, rfl⟩ := h
    have hread : (Lexing.read (quotedChars quote false)).on ⟨raw ++ quote :: rest, [], start.advance quote⟩ =
        (.ok (some raw), ⟨rest, [], (start.advance quote).advanceAll (raw ++ [quote])⟩) := by
      unfold Lexing.on Lexing.read
      rw [quotedChars_of_quoted hback hraw]
    refine .bind hread ?_
    have hcut := Cut.of_not_starts (.string hquote hraw) (longest_string hquote hraw rest) (not_starts_cons hdigit _)
    have hfinish := Settles.finish hcut start
    rw [← unescape_eq hraw, List.cons_append, List.append_assoc] at hfinish
    exact hfinish
  · have hnone : ∀ raw text rest, Quoted quote raw text → cs ≠ raw ++ quote :: rest :=
      fun raw text rest hraw heq => h ⟨raw, text, rest, hraw, heq⟩
    obtain ⟨s, hs⟩ := quotedChars_eq_none cs hnone (start.advance quote)
    have hread : (Lexing.read (quotedChars quote false)).on ⟨cs, [], start.advance quote⟩ = (.ok none, s) := by
      unfold Lexing.on Lexing.read
      rw [hs]
    refine .bind hread (.fail ?_ _ _ _ _)
    intro lex rest kind value heq hcut
    obtain ⟨c, tail, rfl, -⟩ := hcut.lexeme.exists_cons
    obtain ⟨rfl, rfl⟩ := List.cons.inj heq
    obtain ⟨raw, text, rfl, hraw, -⟩ := hcut.lexeme.quoted hquote
    exact hnone raw text rest hraw (by simp)

end

/-- A symbol is read, or there is none. -/
theorem Settles.symbol {c : Char} (hdigit : c.isDigit = false) (hstart : isNameStart c = false) (hquote : ¬ (c = '"' ∨ c = '\''))
    (cs : List Char) (start : Position) : Settles (c :: cs) start ((Lexing.symbol c start).on ⟨cs, [], start.advance c⟩) := by
  have hcut : ∀ tail rest kind, Symbol (c :: tail) kind → Longest (c :: tail) rest → Cut (c :: tail) rest kind .empty := by
    intro tail rest kind hsymbol hlong
    exact .of_not_starts hsymbol.lexeme hlong (not_starts_cons hdigit _)
  -- What may be cut here is a symbol with this first character.
  have hsymbol : ∀ lex rest kind value, c :: cs = lex ++ rest → Cut lex rest kind value →
      ∃ tail, cs = tail ++ rest ∧ Symbol (c :: tail) kind := by
    intro lex rest kind value heq hcut
    obtain ⟨c', tail, rfl, -⟩ := hcut.lexeme.exists_cons
    obtain ⟨rfl, rfl⟩ := List.cons.inj heq
    exact ⟨tail, rfl, (hcut.lexeme.symbol hdigit hstart hquote).1⟩
  unfold Lexing.symbol
  cases hsingle : single? c with
  | some kind => exact .finish (hcut [] cs kind (.single hsingle) (longest_single hsingle cs)) start
  | none =>
    cases hpaired : paired? c with
    | none =>
      refine .fail ?_ _ _ _ _
      intro lex rest kind value heq hcut
      obtain ⟨tail, -, htail⟩ := hsymbol lex rest kind value heq hcut
      cases htail with
      | single h => cases hsingle.symm.trans h
      | long _ h | short _ h => cases hpaired.symm.trans h
    | some pair =>
      obtain ⟨d, long, short⟩ := pair
      by_cases hd : Starts (· == d) cs
      · obtain ⟨d', rest, rfl, hd⟩ := hd
        refine .bind (read_nextIf_of_starts (p := (· == d)) hd _ _) ?_
        obtain rfl := beq_iff_eq.1 hd
        exact .finish (hcut [d'] rest long (.long hsingle hpaired) (longest_long hpaired rest)) start
      · refine .bind (read_nextIf_of_not_starts (p := (· == d)) hd _) ?_
        cases short with
        | some kind => exact .finish (hcut [] cs kind (.short hsingle hpaired) (longest_short hpaired hd)) start
        | none =>
          refine .fail ?_ _ _ _ _
          intro lex rest kind value heq hcut
          obtain ⟨tail, rfl, htail⟩ := hsymbol lex rest kind value heq hcut
          cases htail with
          | single h => cases hsingle.symm.trans h
          | short _ h => cases hpaired.symm.trans h
          | long _ h =>
            cases hpaired.symm.trans h
            exact hd ⟨d, rest, rfl, beq_self_eq_true d⟩

/-- The reader takes what may be cut, and it fails if that is nothing. -/
theorem settles_tokenFrom (c : Char) (cs : List Char) (start : Position) :
    Settles (c :: cs) start ((tokenFrom c start).on ⟨cs, [], start.advance c⟩) := by
  unfold tokenFrom
  split
  case isTrue hdigit => exact .number hdigit cs start
  case isFalse hdigit =>
    rw [Bool.not_eq_true] at hdigit
    split
    case isTrue hstart => exact .word hdigit hstart cs start
    case isFalse hstart =>
      rw [Bool.not_eq_true] at hstart
      split
      case isTrue hquote => exact .string hquote cs start
      case isFalse hquote => exact .symbol hdigit hstart hquote cs start

/-! ## Cutting the whole text -/

/-- The place just past the characters, counted from the start of the text: its lines, and what stands in the last of them. -/
def place (before : List Char) : Position := ⟨before.count '\n' + 1, (before.reverse.takeWhile (· ≠ '\n')).length + 1⟩

/-- The place behind some characters is found by counting line feeds and the characters behind the last. -/
theorem advanceAll_start (before : List Char) : Position.start.advanceAll before = place before := by
  induction before using List.reverseRecOn with
  | nil => rfl
  | append_singleton before c ih =>
    rw [Position.advanceAll_append, ih, Position.advanceAll_cons, Position.advanceAll_nil]
    unfold place Position.advance
    by_cases hc : c = '\n'
    · subst hc
      simp
    · simp [hc]

/-- The place moves on with the characters that are read. -/
theorem advanceAll_place (before cs : List Char) : (place before).advanceAll cs = place (before ++ cs) := by
  rw [← advanceAll_start, ← advanceAll_start, Position.advanceAll_append]

/-- The text behind `before` is cut into the tokens: white space and the lexemes that may be cut, in turn. Each token has the kind and the
value of its lexeme, and the places before and behind it. The last one stands for the end of the text. -/
inductive Cuts : List Char → List Char → List Token → Prop
  | done {before bs : List Char} : (∀ b ∈ bs, Text.isBlank b = true) → Cuts before bs [Token.endAt (place (before ++ bs))]
  | token {before bs lex rest : List Char} {kind : Token.Kind} {value : Token.Value} {ts : List Token} :
      (∀ b ∈ bs, Text.isBlank b = true) → Cut lex rest kind value → Cuts (before ++ bs ++ lex) rest ts →
      Cuts before (bs ++ (lex ++ rest)) (⟨kind, value, place (before ++ bs), place (before ++ bs ++ lex)⟩ :: ts)

end Lexical

namespace Source

open Lexical

/-- A text of white space has one token, which stands for its end. -/
theorem tokenize_of_blank {bs : List Char} (hbs : ∀ b ∈ bs, Text.isBlank b = true) (pos : Position) :
    tokenize ⟨bs, [], pos⟩ = .ok [Token.endAt (pos.advanceAll bs)] := by
  unfold tokenize
  rw [lex_eq, token_of_blank hbs]
  rfl

/-- A text has no tokens if the first one cannot be cut. -/
theorem tokenize_of_error {s s' : Source} {e : LexError} (h : s.token = (.error e, s')) : s.tokenize = .error e := by
  unfold tokenize
  rw [lex_eq, h]

/-- The tokens of a text are its first one and those of the rest. -/
theorem tokenize_of_token {s s' : Source} {t : Token} (h : s.token = (.ok t, s')) (ht : t.kind ≠ .endOfFile) :
    s.tokenize = s'.tokenize.map (t :: ·) := by
  unfold tokenize
  rw [lex_eq, h]
  simp only [if_neg ht]
  rcases s'.lex with ⟨ts, e | pos⟩ <;> rfl

/-- What may be cut next is the next token. -/
theorem token_of_cut {bs lex rest : List Char} {kind : Token.Kind} {value : Token.Value} (hbs : ∀ b ∈ bs, Text.isBlank b = true)
    (hcut : Cut lex rest kind value) (pos : Position) :
    token ⟨bs ++ (lex ++ rest), [], pos⟩ =
      (.ok ⟨kind, value, pos.advanceAll bs, (pos.advanceAll bs).advanceAll lex⟩,
      ⟨rest, [], (pos.advanceAll bs).advanceAll lex⟩) := by
  obtain ⟨c, cs, rfl, -⟩ := hcut.lexeme.exists_cons
  rw [List.cons_append, token_of_cons hbs hcut.lexeme.not_blank]
  rcases settles_tokenFrom c (cs ++ rest) (pos.advanceAll bs) with ⟨lex', rest', kind', value', heq, hcut', hread⟩ | ⟨-, hnone⟩
  · obtain ⟨rfl, rfl, rfl, rfl⟩ := hcut.unique hcut' heq.symm
    exact hread
  · exact absurd hcut (hnone (c :: cs) rest kind value rfl)

/-- The reader gives the tokens that the text is cut into. -/
theorem tokenize_of_cuts {before cs : List Char} {ts : List Token} (h : Cuts before cs ts) :
    tokenize ⟨cs, [], place before⟩ = .ok ts := by
  induction h with
  | @done before bs hbs => rw [tokenize_of_blank hbs, advanceAll_place]
  | @token before bs lex rest kind value ts hbs hcut _ ih =>
    have htoken := token_of_cut hbs hcut (place before)
    rw [advanceAll_place, advanceAll_place] at htoken
    rw [tokenize_of_token htoken hcut.lexeme.kind_ne, ih]
    rfl

/-- Tokens that the reader gives cut the text: each read takes a lexeme, and the rest of the text is shorter. -/
theorem cuts_of_tokenize {before cs : List Char} {ts : List Token} (h : tokenize ⟨cs, [], place before⟩ = .ok ts) :
    Cuts before cs ts := by
  induction hlen : cs.length using Nat.strong_induction_on generalizing before cs ts with
  | h n ih =>
    subst hlen
    obtain hbs | ⟨bs, c, tail, rfl, hbs, hc⟩ := blank_cases cs
    · rw [tokenize_of_blank hbs, advanceAll_place] at h
      cases h
      exact .done hbs
    · have htoken := token_of_cons hbs hc tail (place before)
      rcases settles_tokenFrom c tail ((place before).advanceAll bs) with ⟨lex, rest, kind, value, heq, hcut, hread⟩ |
        ⟨⟨e, s, hread⟩, -⟩
      · rw [hread, advanceAll_place, advanceAll_place] at htoken
        rw [tokenize_of_token htoken hcut.lexeme.kind_ne] at h
        obtain ⟨c', lex', rfl, -⟩ := hcut.lexeme.exists_cons
        rw [heq]
        cases hts : tokenize ⟨rest, [], place (before ++ bs ++ c' :: lex')⟩ with
        | error e => rw [hts] at h; cases h
        | ok ts' =>
          rw [hts] at h
          cases h
          exact .token hbs hcut (ih rest.length (by simp only [heq, List.length_append, List.length_cons]; omega) hts rfl)
      · rw [tokenize_of_error (htoken.trans hread)] at h
        cases h

end Source

/-! ## The order of the tokens -/

namespace Position

/-- Places in the order of reading. -/
instance : LT Position := ⟨fun p q => p.line < q.line ∨ p.line = q.line ∧ p.column < q.column⟩

instance : LE Position := ⟨fun p q => p < q ∨ p = q⟩

/-- A place comes before another one in an earlier line, or further left in the same. -/
theorem lt_iff {p q : Position} : p < q ↔ p.line < q.line ∨ p.line = q.line ∧ p.column < q.column := Iff.rfl

theorem lt_of_le_of_lt {p q r : Position} (h : p ≤ q) (h' : q < r) : p < r := by
  rcases h with h | rfl
  · rw [lt_iff] at h h' ⊢
    omega
  · exact h'

theorem le_trans {p q r : Position} (h : p ≤ q) (h' : q ≤ r) : p ≤ r := by
  rcases h' with h' | rfl
  · exact .inl (lt_of_le_of_lt h h')
  · exact h

/-- A character moves the place on. -/
theorem lt_advance (p : Position) (c : Char) : p < p.advance c := by
  rw [lt_iff]
  unfold advance
  split
  · exact .inl (Nat.lt_succ_self _)
  · exact .inr ⟨rfl, Nat.lt_succ_self _⟩

theorem le_advanceAll (p : Position) (cs : List Char) : p ≤ p.advanceAll cs := by
  induction cs generalizing p with
  | nil => exact .inr rfl
  | cons c cs ih => exact le_trans (.inl (lt_advance p c)) (ih (p.advance c))

/-- At least one character moves the place on. -/
theorem lt_advanceAll_cons (p : Position) (c : Char) (cs : List Char) : p < p.advanceAll (c :: cs) := by
  rcases le_advanceAll (p.advance c) cs with h | h
  · exact lt_of_le_of_lt (.inl (lt_advance p c)) h
  · exact h ▸ lt_advance p c

end Position

namespace Lexical

/-- What is appended to a text does not come before it. -/
theorem place_le_append (before cs : List Char) : place before ≤ place (before ++ cs) := by
  rw [← advanceAll_place]
  exact Position.le_advanceAll _ cs

variable {before cs : List Char} {ts : List Token}

/-- Every token lies behind the place where the text starts. -/
theorem Cuts.place_le (h : Cuts before cs ts) : ∀ t ∈ ts, place before ≤ t.start := by
  induction h with
  | @done before bs _ =>
    intro t ht
    obtain rfl := List.mem_singleton.1 ht
    exact place_le_append before bs
  | @token before bs lex rest kind value ts _ _ _ ih =>
    intro t ht
    rcases List.mem_cons.1 ht with rfl | ht
    · exact place_le_append before bs
    · have hle := place_le_append before (bs ++ lex)
      rw [← List.append_assoc] at hle
      exact Position.le_trans hle (ih t ht)

/-- The tokens stand one behind the other. -/
theorem Cuts.pairwise (h : Cuts before cs ts) : ts.Pairwise fun t t' => t.stop ≤ t'.start := by
  induction h with
  | done => exact List.pairwise_singleton _ _
  | token _ _ hrest ih => exact List.pairwise_cons.2 ⟨hrest.place_le, ih⟩

/-- Each token takes up some of the text, but for the last one, which stands at its end. -/
theorem Cuts.exists_init (h : Cuts before cs ts) :
    ∃ init, ts = init ++ [Token.endAt (place (before ++ cs))] ∧ ∀ t ∈ init, t.kind ≠ .endOfFile ∧ t.start < t.stop := by
  induction h with
  | done => exact ⟨[], rfl, List.forall_mem_nil _⟩
  | @token before bs lex rest kind value ts _ hcut _ ih =>
    obtain ⟨init, rfl, hinit⟩ := ih
    have hlt : place (before ++ bs) < place (before ++ bs ++ lex) := by
      obtain ⟨c, tail, rfl, -⟩ := hcut.lexeme.exists_cons
      rw [← advanceAll_place (before ++ bs)]
      exact Position.lt_advanceAll_cons _ c tail
    refine ⟨⟨kind, value, place (before ++ bs), place (before ++ bs ++ lex)⟩ :: init, ?_,
      List.forall_mem_cons.2 ⟨⟨hcut.lexeme.kind_ne, hlt⟩, hinit⟩⟩
    simp only [List.append_assoc, List.cons_append]

end Lexical

/-- A text has tokens exactly if it is white space and lexemes in turn, each the longest one at its place, and no number in it is too
large or breaks off. The tokens are the lexemes with their values and their places, in the order of the text, and the end of the text. -/
theorem tokenize_eq_ok_iff_cuts (text : String) (ts : List Token) :
    ((Source.ofString text).tokenize = .ok ts ↔ Lexical.Cuts [] text.toList ts) ∧
      (Lexical.Cuts [] text.toList ts →
        ts.Pairwise (fun t t' => t.stop ≤ t'.start) ∧
          ∃ init, ts = init ++ [Token.endAt (Lexical.place text.toList)] ∧ ∀ t ∈ init, t.kind ≠ .endOfFile ∧ t.start < t.stop) := by
  have hsource : Source.ofString text = ⟨text.toList, [], Lexical.place []⟩ := rfl
  rw [hsource]
  refine ⟨⟨Source.cuts_of_tokenize, Source.tokenize_of_cuts⟩, ?_⟩
  intro h
  exact ⟨h.pairwise, h.exists_init⟩

end C0Stack
