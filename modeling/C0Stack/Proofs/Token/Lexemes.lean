import Mathlib.Data.Nat.Digits.Defs
import C0Stack.Proofs.Token.Joined

/-!
# The lexical grammar

Which characters make up a token of which kind, and what the token holds (`Lexical.Lexeme`), said without the reader. A text may start
with several lexemes, of which the reader takes the longest. The first character decides whether they are numbers, words, strings or
symbols.
-/

namespace C0Stack

/-! ## Classes of characters -/

namespace Text

theorem isDigit_iff {c : Char} : c.isDigit = true ↔ 48 ≤ c.toNat ∧ c.toNat ≤ 57 := by
  simp [Char.isDigit, UInt32.le_iff_toNat_le]

/-- The letters of the Latin alphabet by their code points. -/
theorem isAlpha_iff {c : Char} : c.isAlpha = true ↔ 65 ≤ c.toNat ∧ c.toNat ≤ 90 ∨ 97 ≤ c.toNat ∧ c.toNat ≤ 122 := by
  change (decide (c.val ≥ 65 ∧ c.val ≤ 90) || (decide (c.val ≥ 97) && decide (c.val ≤ 122))) = true ↔ _
  simp [UInt32.le_iff_toNat_le]

theorem val_lt_iff {c : Char} : c.val < 128 ↔ c.toNat < 128 := by simp [UInt32.lt_iff_toNat_lt]

/-- White space among the first 128 characters: the blank, and what moves the place of writing. -/
theorem isBlank_iff_of_ascii {c : Char} (h : c.val < 128) : isBlank c = true ↔ c.toNat = 32 ∨ 9 ≤ c.toNat ∧ c.toNat ≤ 13 := by
  rw [isBlank, if_pos h]
  simp [UInt32.le_iff_toNat_le, Char.ext_iff, ← UInt32.toNat_inj]

/-- Code points that lie in ranges apart from others are not among those. -/
theorem CodePoints.contains_eq_false {ranges others : CodePoints} (h : ∀ r ∈ ranges, ∀ q ∈ others, r.2 < q.1 ∨ q.2 < r.1) {c : Char}
    (hc : ranges.contains c = true) : others.contains c = false := by
  obtain ⟨r, hr, hle, hge⟩ := contains_iff.1 hc
  rw [Bool.eq_false_iff]
  intro hc'
  obtain ⟨q, hq, hle', hge'⟩ := contains_iff.1 hc'
  rcases h r hr q hq with hlt | hlt <;> omega

theorem blankRanges_disjoint_alphabetic : ∀ r ∈ blankRanges, ∀ q ∈ alphabeticRanges, r.2 < q.1 ∨ q.2 < r.1 := by decide +kernel

theorem blankRanges_disjoint_numeric : ∀ r ∈ blankRanges, ∀ q ∈ numericRanges, r.2 < q.1 ∨ q.2 < r.1 := by decide +kernel

end Text

namespace Lexing

open Text

/-- White space is not part of names. -/
theorem isNamePart_of_isBlank {c : Char} (h : isBlank c = true) : isNamePart c = false := by
  have hne : (c == '_') = false := by
    rw [beq_eq_false_iff_ne]
    rintro rfl
    exact absurd h (by decide)
  unfold isNamePart isAlphabetic isNumeric
  by_cases hlt : c.val < 128
  · rw [isBlank_iff_of_ascii hlt] at h
    have halpha : c.isAlpha = false := by rw [Bool.eq_false_iff, Ne, isAlpha_iff]; omega
    have hdigit : c.isDigit = false := by rw [Bool.eq_false_iff, Ne, isDigit_iff]; omega
    rw [if_pos hlt, if_pos hlt, halpha, hdigit, hne]
    rfl
  · rw [isBlank, if_neg hlt] at h
    rw [if_neg hlt, if_neg hlt, CodePoints.contains_eq_false blankRanges_disjoint_alphabetic h,
      CodePoints.contains_eq_false blankRanges_disjoint_numeric h, hne]
    rfl

/-- What starts a name may go on with one. -/
theorem isNamePart_of_isNameStart {c : Char} (h : isNameStart c = true) : isNamePart c = true := by
  unfold isNameStart at h
  unfold isNamePart
  rcases Bool.or_eq_true_iff.1 h with h | h <;> simp [h]

/-- A digit does not start a name. -/
theorem isNameStart_of_isDigit {c : Char} (h : c.isDigit = true) : isNameStart c = false := by
  have hnat := isDigit_iff.1 h
  have hlt : c.val < 128 := val_lt_iff.2 (by omega)
  have halpha : c.isAlpha = false := by rw [Bool.eq_false_iff, Ne, isAlpha_iff]; omega
  have hne : (c == '_') = false := by
    rw [beq_eq_false_iff_ne]
    rintro rfl
    exact absurd h (by decide)
  unfold isNameStart isAlphabetic
  rw [if_pos hlt, halpha, hne]
  rfl

/-- A digit is not white space. -/
theorem isBlank_of_isDigit {c : Char} (h : c.isDigit = true) : isBlank c = false := by
  have hnat := isDigit_iff.1 h
  have hlt : c.val < 128 := val_lt_iff.2 (by omega)
  rw [Bool.eq_false_iff, Ne, isBlank_iff_of_ascii hlt]
  omega

/-- What starts a symbol is not a digit, a letter, a quote or white space. -/
theorem symbol_start {c : Char} (h : (single? c).isSome ∨ (paired? c).isSome) :
    c.isDigit = false ∧ isNameStart c = false ∧ ¬ (c = '"' ∨ c = '\'') ∧ isBlank c = false := by
  unfold single? paired? at h
  rcases h with h | h
  · split at h <;> first | decide | cases h
  · split at h <;> first | decide | cases h

end Lexing

namespace Lexical

open Lexing

/-! ## Lexemes -/

/-- At least one digit, and nothing else. -/
def Digits (ds : List Char) : Prop := ds ≠ [] ∧ ∀ d ∈ ds, d.isDigit = true

/-- The number that digits spell in base ten. -/
def decimal (ds : List Char) : Nat := Nat.ofDigits 10 (ds.reverse.map fun d => d.toNat - 48)

/-- The exponent of a number, and its value: a mark, perhaps a sign, and digits. A number without one has the exponent zero. -/
inductive Exponent : List Char → Int → Prop
  | none : Exponent [] 0
  | unsigned {mark : Char} {ds : List Char} : mark = 'e' ∨ mark = 'E' → Digits ds → Exponent (mark :: ds) (decimal ds)
  | plus {mark : Char} {ds : List Char} : mark = 'e' ∨ mark = 'E' → Digits ds → Exponent (mark :: '+' :: ds) (decimal ds)
  | minus {mark : Char} {ds : List Char} : mark = 'e' ∨ mark = 'E' → Digits ds → Exponent (mark :: '-' :: ds) (-decimal ds)

/-- The inside of a string with the given quotes, and the text it stands for. A backslash escapes the character behind it. -/
inductive Quoted (quote : Char) : List Char → List Char → Prop
  | nil : Quoted quote [] []
  | plain {c : Char} {raw text : List Char} : c ≠ quote → c ≠ '\\' → Quoted quote raw text → Quoted quote (c :: raw) (c :: text)
  | escape {c : Char} {raw text : List Char} :
      Quoted quote raw text → Quoted quote ('\\' :: c :: raw) (escapeValue c ++ text)

/-- The characters are a lexeme of the kind, and what a token made of them holds. An integer holds its value if that fits in 64 bits.
A name is a word that is not the spelling of a keyword. -/
inductive Lexeme : List Char → Token.Kind → Token.Value → Prop
  | integer {ds : List Char} : Digits ds → Lexeme ds .integer (.integer (decimal ds).toUInt64)
  | double {ds fs es : List Char} {e : Int} : Digits ds → Digits fs → Exponent es e →
      Lexeme (ds ++ '.' :: (fs ++ es)) .double (.double (.ofDecimal ⟨decimal (ds ++ fs), e - fs.length⟩))
  | string {quote : Char} {raw text : List Char} : quote = '"' ∨ quote = '\'' → Quoted quote raw text →
      Lexeme (quote :: (raw ++ [quote])) .string (.text (String.ofList text))
  | name {c : Char} {cs : List Char} : isNameStart c = true → (∀ d ∈ cs, isNamePart d = true) →
      (∀ k ∈ Token.Kind.keywords, k.spelling ≠ some (String.ofList (c :: cs))) →
      Lexeme (c :: cs) .name (.text (String.ofList (c :: cs)))
  | fixed {kind : Token.Kind} {s : String} : kind.spelling = some s → Lexeme s.toList kind .empty

/-! ## Runs of characters -/

/-- The text starts with a character of the class. -/
def Starts (p : Char → Bool) (cs : List Char) : Prop := ∃ c rest, cs = c :: rest ∧ p c = true

section

variable {p : Char → Bool} {ds ds' rest rest' : List Char}

theorem not_starts_nil : ¬ Starts p [] := by
  rintro ⟨_, _, ⟨⟩, -⟩

/-- A text starts with a character of the class exactly if its first one is in it. -/
theorem starts_cons {c : Char} : Starts p (c :: rest) ↔ p c = true :=
  ⟨by rintro ⟨_, _, ⟨⟩, h⟩; exact h, fun h => ⟨c, rest, rfl, h⟩⟩

/-- A text whose first character is not in the class does not start with one that is. -/
theorem not_starts_cons {c : Char} (hc : p c = false) (rest : List Char) : ¬ Starts p (c :: rest) := by
  rw [starts_cons, hc]
  exact Bool.false_ne_true

/-- From a text that starts with no character of the class, no run is taken. -/
theorem takeWhile_of_not_starts (h : ¬ Starts p rest) : rest.takeWhile p = [] ∧ rest.dropWhile p = rest := by
  cases rest with
  | nil => exact ⟨rfl, rfl⟩
  | cons c rest =>
    rw [starts_cons] at h
    exact ⟨List.takeWhile_cons_of_neg h, List.dropWhile_cons_of_neg h⟩

/-- Every text is a run of characters of the class, and a rest that does not start with one. -/
theorem exists_run (p : Char → Bool) (cs : List Char) :
    ∃ ds rest, cs = ds ++ rest ∧ (∀ d ∈ ds, p d = true) ∧ ¬ Starts p rest := by
  induction cs with
  | nil => exact ⟨[], [], rfl, List.forall_mem_nil _, not_starts_nil⟩
  | cons c cs ih =>
    by_cases hc : p c = true
    · obtain ⟨ds, rest, rfl, hds, hrest⟩ := ih
      exact ⟨c :: ds, rest, rfl, List.forall_mem_cons.2 ⟨hc, hds⟩, hrest⟩
    · exact ⟨[], c :: cs, rfl, List.forall_mem_nil _, fun h => hc (starts_cons.1 h)⟩

/-- A run with nothing of the class behind it is what is taken. -/
theorem takeWhile_run (hds : ∀ d ∈ ds, p d = true) (hrest : ¬ Starts p rest) :
    (ds ++ rest).takeWhile p = ds ∧ (ds ++ rest).dropWhile p = rest := by
  obtain ⟨htake, hdrop⟩ := takeWhile_of_not_starts hrest
  rw [List.takeWhile_append_of_pos hds, List.dropWhile_append_of_pos hds, htake, hdrop, List.append_nil]
  exact ⟨rfl, rfl⟩

/-- The run that a text starts with is the only one. -/
theorem run_unique (hds : ∀ d ∈ ds, p d = true) (hrest : ¬ Starts p rest) (hds' : ∀ d ∈ ds', p d = true) (hrest' : ¬ Starts p rest')
    (h : ds' ++ rest' = ds ++ rest) : ds' = ds ∧ rest' = rest := by
  obtain ⟨htake, hdrop⟩ := takeWhile_run hds hrest
  obtain ⟨htake', hdrop'⟩ := takeWhile_run hds' hrest'
  rw [h, htake] at htake'
  rw [h, hdrop] at hdrop'
  exact ⟨htake'.symm, hdrop'.symm⟩

/-- What a text starts with from the class lies in its run. -/
theorem length_le_run (hrest : ¬ Starts p rest) (hds' : ∀ d ∈ ds', p d = true) (h : ds' <+: ds ++ rest) :
    ds'.length ≤ ds.length := by
  by_contra hlt
  have hpre : ds <+: ds' := List.prefix_of_prefix_length_le (List.prefix_append ds rest) h (by omega)
  obtain ⟨es, rfl⟩ := hpre
  cases es with
  | nil => exact hlt (by simp)
  | cons e es =>
    obtain ⟨tail, htail⟩ := (List.prefix_append_right_inj ds).1 h
    exact hrest ⟨e, es ++ tail, htail.symm, hds' e (by simp)⟩

/-- Digits are a first one and others. -/
theorem Digits.exists_cons (h : Digits ds) : ∃ c tail, ds = c :: tail ∧ c.isDigit = true ∧ ∀ d ∈ tail, d.isDigit = true := by
  obtain ⟨hne, hall⟩ := h
  cases ds with
  | nil => exact (hne rfl).elim
  | cons c tail => exact ⟨c, tail, rfl, List.forall_mem_cons.1 hall⟩

/-- A text that starts with digits starts with a digit. -/
theorem Digits.starts (h : Digits ds) (rest : List Char) : Starts Char.isDigit (ds ++ rest) := by
  obtain ⟨c, tail, rfl, hc, -⟩ := h.exists_cons
  exact starts_cons.2 hc

/-- A text that starts with digits starts with no character of a class without digits. -/
theorem Digits.not_starts (h : Digits ds) (hp : ∀ c, c.isDigit = true → p c = false) (rest : List Char) :
    ¬ Starts p (ds ++ rest) := by
  obtain ⟨c, tail, rfl, hc, -⟩ := h.exists_cons
  exact not_starts_cons (hp c hc) _

/-- The digits before a point are all the digits there are. -/
theorem Digits.point_unique (hds : Digits ds) (hds' : Digits ds') (h : ds' ++ '.' :: rest' = ds ++ '.' :: rest) :
    ds' = ds ∧ rest' = rest := by
  obtain ⟨rfl, htail⟩ := run_unique hds.2 (not_starts_cons rfl rest) hds'.2 (not_starts_cons rfl rest') h
  exact ⟨rfl, (List.cons.inj htail).2⟩

end

/-! ## Exponents -/

/-- The mark of an exponent. -/
def isMark (c : Char) : Bool := c == 'e' || c == 'E'

/-- The sign of an exponent. -/
def isSign (c : Char) : Bool := c == '+' || c == '-'

theorem isMark_iff {c : Char} : isMark c = true ↔ c = 'e' ∨ c = 'E' := by simp [isMark]

theorem isSign_of_isDigit {c : Char} (h : c.isDigit = true) : isSign c = false := by
  unfold isSign
  rw [Bool.or_eq_false_iff, beq_eq_false_iff_ne, beq_eq_false_iff_ne]
  constructor <;> rintro rfl <;> cases h

theorem isDigit_of_isMark {c : Char} (h : isMark c = true) : c.isDigit = false := by
  rcases isMark_iff.1 h with rfl | rfl <;> rfl

/-- The value of an exponent with the sign and the digits. -/
def scale (sign : Option Char) (ds : List Char) : Int := if sign == some '-' then -decimal ds else decimal ds

section

variable {es es' rest rest' : List Char} {e e' : Int}

/-- An exponent in its parts. -/
theorem exponent_iff : Exponent es e ↔ es = [] ∧ e = 0 ∨
    ∃ mark, ∃ sign : Option Char, ∃ ds, isMark mark = true ∧ (∀ c ∈ sign.toList, isSign c = true) ∧ Digits ds ∧
      es = mark :: (sign.toList ++ ds) ∧ e = scale sign ds := by
  constructor
  · intro h
    cases h with
    | none => exact .inl ⟨rfl, rfl⟩
    | @unsigned mark ds hmark hds => exact .inr ⟨mark, none, ds, isMark_iff.2 hmark, List.forall_mem_nil _, hds, rfl, rfl⟩
    | @plus mark ds hmark hds => exact .inr ⟨mark, some '+', ds, isMark_iff.2 hmark, List.forall_mem_singleton.2 rfl, hds, rfl, rfl⟩
    | @minus mark ds hmark hds => exact .inr ⟨mark, some '-', ds, isMark_iff.2 hmark, List.forall_mem_singleton.2 rfl, hds, rfl, rfl⟩
  · rintro (⟨rfl, rfl⟩ | ⟨mark, sign, ds, hmark, hsign, hds, rfl, rfl⟩)
    · exact .none
    · rw [isMark_iff] at hmark
      cases sign with
      | none => exact .unsigned hmark hds
      | some c =>
        have hc : c = '+' ∨ c = '-' := by simpa [isSign] using hsign
        rcases hc with rfl | rfl
        · exact .plus hmark hds
        · exact .minus hmark hds

/-- An exponent does not start with a digit. -/
theorem Exponent.nil_or_not_starts (h : Exponent es e) (rest : List Char) : es = [] ∨ ¬ Starts Char.isDigit (es ++ rest) := by
  rcases exponent_iff.1 h with ⟨rfl, -⟩ | ⟨mark, sign, ds, hmark, -, -, rfl, -⟩
  · exact .inl rfl
  · exact .inr (not_starts_cons (isDigit_of_isMark hmark) _)

/-- No digit comes behind the fraction, where none comes behind the exponent. -/
theorem Exponent.not_starts (h : Exponent es e) (hrest : ¬ Starts Char.isDigit rest) : ¬ Starts Char.isDigit (es ++ rest) := by
  rcases h.nil_or_not_starts rest with rfl | htail
  · exact hrest
  · exact htail

/-- Two exponents with the same mark have the same sign, and the digits of the second lie in those of the first if no digit follows
them. -/
theorem Exponent.length_le (h : Exponent es e) (hmark : es = [] → ¬ Starts isMark rest) (hdigit : ¬ Starts Char.isDigit rest)
    (h' : Exponent es' e') (heq : es' ++ rest' = es ++ rest) : es'.length ≤ es.length := by
  rcases exponent_iff.1 h' with ⟨rfl, -⟩ | ⟨mark', sign', ds', hmark', hsign', hds', rfl, -⟩
  · exact Nat.zero_le _
  rcases exponent_iff.1 h with ⟨rfl, -⟩ | ⟨mark, sign, ds, -, hsign, hds, rfl, -⟩
  · exact absurd ⟨mark', _, heq.symm, hmark'⟩ (hmark rfl)
  simp only [List.cons_append, List.cons.injEq, List.append_assoc] at heq
  obtain ⟨hsigns, hdigits⟩ := run_unique hsign (hds.not_starts (fun _ => isSign_of_isDigit) rest) hsign'
    (hds'.not_starts (fun _ => isSign_of_isDigit) rest') heq.2
  have hle := length_le_run hdigit hds'.2 ⟨rest', hdigits⟩
  simp only [List.length_cons, List.length_append, hsigns]
  omega

/-- The characters of an exponent fix its value. -/
theorem Exponent.unique (h : Exponent es e) (h' : Exponent es e') : e' = e := by
  rcases exponent_iff.1 h with ⟨rfl, rfl⟩ | ⟨mark, sign, ds, -, hsign, hds, rfl, rfl⟩
  · rcases exponent_iff.1 h' with ⟨-, rfl⟩ | ⟨mark', sign', ds', -, -, -, heq, -⟩
    · rfl
    · cases heq
  · rcases exponent_iff.1 h' with ⟨heq, -⟩ | ⟨mark', sign', ds', -, hsign', hds', heq, rfl⟩
    · cases heq
    · have hds₀ := hds.not_starts (fun _ => isSign_of_isDigit) []
      have hds₁ := hds'.not_starts (fun _ => isSign_of_isDigit) []
      rw [List.append_nil] at hds₀ hds₁
      obtain ⟨hsigns, rfl⟩ := run_unique hsign hds₀ hsign' hds₁ (List.cons.inj heq).2.symm
      have hsign₀ : sign' = sign := by simpa using congrArg List.head? hsigns
      rw [hsign₀]

end

/-! ## Numbers, words, strings and symbols -/

/-- A number, its kind and its value. -/
def Number (cs : List Char) (kind : Token.Kind) (value : Token.Value) : Prop :=
  Digits cs ∧ kind = .integer ∧ value = .integer (decimal cs).toUInt64 ∨
    ∃ ds fs es e, Digits ds ∧ Digits fs ∧ Exponent es e ∧ cs = ds ++ '.' :: (fs ++ es) ∧ kind = .double ∧
      value = .double (.ofDecimal ⟨decimal (ds ++ fs), e - fs.length⟩)

/-- A word: a character that starts a name, and characters that go on with it. -/
def Word : List Char → Prop
  | [] => False
  | c :: rest => isNameStart c = true ∧ ∀ d ∈ rest, isNamePart d = true

/-- The kind and the value of a word: a keyword, or else a name. -/
def wordToken (word : String) : Token.Kind × Token.Value :=
  match Token.Kind.keyword? word with
  | some kind => (kind, .empty)
  | none => (.name, .text word)

/-- A symbol and its kind, by its first character. -/
inductive Symbol : List Char → Token.Kind → Prop
  | single {c : Char} {kind : Token.Kind} : single? c = some kind → Symbol [c] kind
  | long {c d : Char} {kind : Token.Kind} {short : Option Token.Kind} :
      single? c = none → paired? c = some (d, kind, short) → Symbol [c, d] kind
  | short {c d : Char} {kind long : Token.Kind} :
      single? c = none → paired? c = some (d, long, some kind) → Symbol [c] kind

/-- Keywords are words, and the other kinds with one spelling are symbols. -/
theorem word_or_symbol {kind : Token.Kind} {s : String} (h : kind.spelling = some s) :
    Word s.toList ∧ wordToken s = (kind, .empty) ∨ Symbol s.toList kind := by
  cases kind with
  | kwFn | kwLet | kwConst | kwAs | kwWhile | kwIf | kwElse | kwReturn | kwBreak | kwContinue =>
    cases h
    exact .inl ⟨by simp [Word]; decide, by decide⟩
  | plus | star | slash | openParen | closeParen | openBrace | closeBrace | comma | colon | semicolon =>
    cases h
    exact .inr (.single rfl)
  | arrow | equal | notEqual | lessEqual | greaterEqual =>
    cases h
    exact .inr (.long rfl rfl)
  | minus | assign | less | greater =>
    cases h
    exact .inr (.short rfl rfl)
  | integer | double | string | name | endOfFile => cases h

/-- Every word is a lexeme. -/
theorem Word.lexeme {cs : List Char} (h : Word cs) :
    Lexeme cs (wordToken (String.ofList cs)).1 (wordToken (String.ofList cs)).2 := by
  cases cs with
  | nil => exact h.elim
  | cons c rest =>
    unfold wordToken
    cases hword : Token.Kind.keyword? (String.ofList (c :: rest)) with
    | some kind =>
      have hs := List.find?_some (p := fun k : Token.Kind => k.spelling == some (String.ofList (c :: rest))) hword
      have hfixed := Lexeme.fixed (beq_iff_eq.1 hs)
      rwa [String.toList_ofList] at hfixed
    | none =>
      have hnone : ∀ k ∈ Token.Kind.keywords, k.spelling ≠ some (String.ofList (c :: rest)) := by
        intro k hk hs
        exact List.find?_eq_none.1 hword k hk (beq_iff_eq.2 hs)
      exact .name h.1 h.2 hnone

/-- A symbol is the fixed spelling of its kind. -/
theorem Symbol.spelling {cs : List Char} {kind : Token.Kind} (h : Symbol cs kind) : kind.spelling = some (String.ofList cs) := by
  cases h with
  | single h =>
    unfold single? at h
    split at h <;> cases h <;> rfl
  | long _ h | short _ h =>
    unfold paired? at h
    split at h <;> cases h <;> rfl

/-- Every symbol is a lexeme. -/
theorem Symbol.lexeme {cs : List Char} {kind : Token.Kind} (h : Symbol cs kind) : Lexeme cs kind .empty := by
  have hfixed := Lexeme.fixed h.spelling
  rwa [String.toList_ofList] at hfixed

/-- A number starts with a digit. -/
theorem Number.starts {cs : List Char} {kind : Token.Kind} {value : Token.Value} (h : Number cs kind value) :
    Starts Char.isDigit cs := by
  rcases h with ⟨hds, -⟩ | ⟨ds, fs, es, e, hds, -, -, rfl, -⟩
  · exact List.append_nil cs ▸ hds.starts []
  · exact hds.starts _

/-- A symbol starts with a character that starts an operator or is a punctuation mark. -/
theorem Symbol.exists_cons {cs : List Char} {kind : Token.Kind} (h : Symbol cs kind) :
    ∃ c rest, cs = c :: rest ∧ ((single? c).isSome ∨ (paired? c).isSome) := by
  cases h with
  | single h => exact ⟨_, _, rfl, .inl (Option.isSome_of_eq_some h)⟩
  | long _ h | short _ h => exact ⟨_, _, rfl, .inr (Option.isSome_of_eq_some h)⟩

/-- The first character of a lexeme tells numbers, words, strings and symbols apart. -/
theorem Lexeme.exists_cons {cs : List Char} {kind : Token.Kind} {value : Token.Value} (h : Lexeme cs kind value) :
    ∃ c rest, cs = c :: rest ∧
      (c.isDigit = true ∧ Number cs kind value ∨
        isNameStart c = true ∧ Word cs ∧ wordToken (String.ofList cs) = (kind, value) ∨
        (c = '"' ∨ c = '\'') ∧
          (∃ raw text, rest = raw ++ [c] ∧ Quoted c raw text ∧ kind = .string ∧ value = .text (String.ofList text)) ∨
        ((single? c).isSome ∨ (paired? c).isSome) ∧ Symbol cs kind ∧ value = .empty) := by
  cases h with
  | integer hds =>
    have hnumber : Number cs .integer _ := .inl ⟨hds, rfl, rfl⟩
    obtain ⟨c, rest, hcs, hc⟩ := hnumber.starts
    exact ⟨c, rest, hcs, .inl ⟨hc, hnumber⟩⟩
  | @double ds fs es e hds hfs hes =>
    have hnumber : Number _ .double _ := .inr ⟨ds, fs, es, e, hds, hfs, hes, rfl, rfl, rfl⟩
    obtain ⟨c, rest, hcs, hc⟩ := hnumber.starts
    exact ⟨c, rest, hcs, .inl ⟨hc, hnumber⟩⟩
  | @string quote raw text hquote htext =>
    exact ⟨quote, raw ++ [quote], rfl, .inr (.inr (.inl ⟨hquote, raw, text, rfl, htext, rfl, rfl⟩))⟩
  | @name c cs hc hcs hword =>
    have hnone : Token.Kind.keyword? (String.ofList (c :: cs)) = none := by
      apply List.find?_eq_none.2
      intro k hk hs
      exact hword k hk (beq_iff_eq.1 hs)
    exact ⟨c, cs, rfl, .inr (.inl ⟨hc, ⟨hc, hcs⟩, by rw [wordToken, hnone]⟩)⟩
  | @fixed _ s hs =>
    rcases word_or_symbol hs with ⟨hword, htoken⟩ | hsymbol
    · rw [← String.ofList_toList (s := s)] at htoken
      revert hword htoken
      generalize s.toList = cs
      intro hword htoken
      cases cs with
      | nil => exact hword.elim
      | cons c rest => exact ⟨c, rest, rfl, .inr (.inl ⟨hword.1, hword, htoken⟩)⟩
    · obtain ⟨c, rest, hcs, hc⟩ := hsymbol.exists_cons
      exact ⟨c, rest, hcs, .inr (.inr (.inr ⟨hc, hsymbol, rfl⟩))⟩

section

variable {c : Char} {cs : List Char} {kind : Token.Kind} {value : Token.Value}

/-- A lexeme that starts with a digit is a number. -/
theorem Lexeme.number (h : Lexeme (c :: cs) kind value) (hc : c.isDigit = true) : Number (c :: cs) kind value := by
  obtain ⟨_, _, ⟨⟩, ⟨-, hnumber⟩ | ⟨hstart, -⟩ | ⟨hquote, -⟩ | ⟨hsymbol, -⟩⟩ := h.exists_cons
  · exact hnumber
  · rw [isNameStart_of_isDigit hc] at hstart
    cases hstart
  · rcases hquote with rfl | rfl <;> cases hc
  · rw [(symbol_start hsymbol).1] at hc
    cases hc

/-- A lexeme that starts as a name is a word, with the kind and the value of the word. -/
theorem Lexeme.word (h : Lexeme (c :: cs) kind value) (hc : isNameStart c = true) :
    Word (c :: cs) ∧ wordToken (String.ofList (c :: cs)) = (kind, value) := by
  obtain ⟨_, _, ⟨⟩, ⟨hdigit, -⟩ | ⟨-, hword⟩ | ⟨hquote, -⟩ | ⟨hsymbol, -⟩⟩ := h.exists_cons
  · rw [isNameStart_of_isDigit hdigit] at hc
    cases hc
  · exact hword
  · rcases hquote with rfl | rfl <;> exact absurd hc (by decide)
  · rw [(symbol_start hsymbol).2.1] at hc
    cases hc

/-- A lexeme that starts with a quote is a string up to its closing quote. -/
theorem Lexeme.quoted (h : Lexeme (c :: cs) kind value) (hc : c = '"' ∨ c = '\'') :
    ∃ raw text, cs = raw ++ [c] ∧ Quoted c raw text ∧ kind = .string ∧ value = .text (String.ofList text) := by
  obtain ⟨_, _, ⟨⟩, ⟨hdigit, -⟩ | ⟨hstart, -⟩ | ⟨-, hquoted⟩ | ⟨hsymbol, -⟩⟩ := h.exists_cons
  · rcases hc with rfl | rfl <;> cases hdigit
  · rcases hc with rfl | rfl <;> exact absurd hstart (by decide)
  · exact hquoted
  · exact absurd hc (symbol_start hsymbol).2.2.1

/-- What is neither a number, a word nor a string is a symbol. -/
theorem Lexeme.symbol (h : Lexeme (c :: cs) kind value) (hdigit : c.isDigit = false) (hstart : isNameStart c = false)
    (hquote : ¬ (c = '"' ∨ c = '\'')) : Symbol (c :: cs) kind ∧ value = .empty := by
  obtain ⟨_, _, ⟨⟩, ⟨hdigit', -⟩ | ⟨hstart', -⟩ | ⟨hquote', -⟩ | ⟨-, hsymbol⟩⟩ := h.exists_cons
  · rw [hdigit] at hdigit'
    cases hdigit'
  · rw [hstart] at hstart'
    cases hstart'
  · exact absurd hquote' hquote
  · exact hsymbol

/-- No lexeme stands for the end of the text. -/
theorem Lexeme.kind_ne {cs : List Char} (h : Lexeme cs kind value) : kind ≠ .endOfFile := by
  rintro rfl
  cases h with
  | fixed hs => cases hs

/-- No lexeme starts with white space. -/
theorem Lexeme.not_blank (h : Lexeme (c :: cs) kind value) : Text.isBlank c = false := by
  obtain ⟨_, _, ⟨⟩, ⟨hdigit, -⟩ | ⟨hstart, -⟩ | ⟨hquote, -⟩ | ⟨hsymbol, -⟩⟩ := h.exists_cons
  · exact isBlank_of_isDigit hdigit
  · rw [Bool.eq_false_iff]
    intro hblank
    have hpart := isNamePart_of_isNameStart hstart
    rw [isNamePart_of_isBlank hblank] at hpart
    cases hpart
  · rcases hquote with rfl | rfl <;> decide
  · exact (symbol_start hsymbol).2.2.2

end

/-! ## The grammar is unambiguous -/

/-- A quoted text ends at the first quote that is not escaped. -/
theorem Quoted.unique {quote : Char} {raw raw' text text' rest rest' : List Char} (hquote : quote = '"' ∨ quote = '\'')
    (h : Quoted quote raw text) (h' : Quoted quote raw' text') (heq : raw' ++ quote :: rest' = raw ++ quote :: rest) :
    raw' = raw ∧ text' = text := by
  have hne : quote ≠ '\\' := by rcases hquote with rfl | rfl <;> decide
  induction h generalizing raw' text' with
  | nil =>
    cases h' with
    | nil => exact ⟨rfl, rfl⟩
    | plain hc => exact absurd (List.cons.inj heq).1 hc
    | escape => exact absurd (List.cons.inj heq).1.symm hne
  | plain hc hback _ ih =>
    cases h' with
    | nil => exact absurd (List.cons.inj heq).1.symm hc
    | plain _ _ h' =>
      obtain ⟨rfl, htail⟩ := List.cons.inj heq
      obtain ⟨rfl, rfl⟩ := ih h' htail
      exact ⟨rfl, rfl⟩
    | escape => exact absurd (List.cons.inj heq).1.symm hback
  | escape _ ih =>
    cases h' with
    | nil => exact absurd (List.cons.inj heq).1 hne
    | plain _ hback => exact absurd (List.cons.inj heq).1 hback
    | escape h' =>
      obtain ⟨rfl, htail⟩ := List.cons.inj (List.cons.inj heq).2
      obtain ⟨rfl, rfl⟩ := ih h' htail
      exact ⟨rfl, rfl⟩

section

variable {cs : List Char} {kind kind' : Token.Kind} {value value' : Token.Value}

/-- Digits have no point among them. -/
theorem Digits.ne_append_point {ds tail : List Char} (h : Digits cs) : cs ≠ ds ++ '.' :: tail := by
  rintro rfl
  have hpoint := h.2 '.' (by simp)
  cases hpoint

/-- The characters of a number fix its kind and its value. -/
theorem Number.unique (h : Number cs kind value) (h' : Number cs kind' value') : kind' = kind ∧ value' = value := by
  rcases h with ⟨hds, rfl, rfl⟩ | ⟨ds, fs, es, e, hds, hfs, hes, rfl, rfl, rfl⟩
  · rcases h' with ⟨-, rfl, rfl⟩ | ⟨ds', fs', es', e', -, -, -, heq, -⟩
    · exact ⟨rfl, rfl⟩
    · exact absurd heq hds.ne_append_point
  · rcases h' with ⟨hds', -⟩ | ⟨ds', fs', es', e', hds', hfs', hes', heq, rfl, rfl⟩
    · exact absurd rfl hds'.ne_append_point
    · obtain ⟨rfl, htail⟩ := hds.point_unique hds' heq.symm
      have hes₀ := hes.not_starts not_starts_nil
      have hes₁ := hes'.not_starts not_starts_nil
      rw [List.append_nil] at hes₀ hes₁
      obtain ⟨rfl, rfl⟩ := run_unique hfs.2 hes₀ hfs'.2 hes₁ htail
      rw [hes.unique hes']
      exact ⟨rfl, rfl⟩

/-- The characters of a symbol fix its kind. -/
theorem Symbol.unique (h : Symbol cs kind) (h' : Symbol cs kind') : kind' = kind := by
  cases h with
  | single h =>
    cases h' with
    | single h' => exact Option.some.inj (h'.symm.trans h)
    | short hnone => cases h.symm.trans hnone
  | long _ h =>
    cases h' with
    | long _ h' => cases h.symm.trans h'; rfl
  | short hnone h =>
    cases h' with
    | single h' => cases h'.symm.trans hnone
    | short _ h' => cases h.symm.trans h'; rfl

/-- The characters of a lexeme fix its kind and its value. -/
theorem Lexeme.unique (h : Lexeme cs kind value) (h' : Lexeme cs kind' value') : kind' = kind ∧ value' = value := by
  obtain ⟨c, rest, rfl, ⟨hc, hnumber⟩ | ⟨hc, -, hword⟩ | ⟨hc, raw, text, rfl, htext, rfl, rfl⟩ | ⟨hc, hsymbol, rfl⟩⟩ := h.exists_cons
  · exact hnumber.unique (h'.number hc)
  · exact Prod.mk.inj ((h'.word hc).2.symm.trans hword)
  · obtain ⟨raw', text', heq, htext', rfl, rfl⟩ := h'.quoted hc
    obtain ⟨-, rfl⟩ := htext.unique hc htext' heq.symm
    exact ⟨rfl, rfl⟩
  · obtain ⟨hdigit, hstart, hquote, -⟩ := symbol_start hc
    obtain ⟨hsymbol', rfl⟩ := h'.symbol hdigit hstart hquote
    exact ⟨hsymbol.unique hsymbol', rfl⟩

end

/-! ## The longest lexeme -/

/-- No lexeme that the text starts with is longer than the given one. -/
def Longest (lex rest : List Char) : Prop := ∀ cs kind value, Lexeme cs kind value → cs <+: lex ++ rest → cs.length ≤ lex.length

section

variable {ds fs es rest : List Char}

/-- A lexeme at digits is a number; if it is longer than the digits, its point follows them. -/
theorem Digits.lexeme {cs : List Char} {kind : Token.Kind} {value : Token.Value} (hds : Digits ds)
    (hrest : ¬ Starts Char.isDigit rest) (h : Lexeme cs kind value) (hcs : cs <+: ds ++ rest) :
    cs.length ≤ ds.length ∨
      ∃ fs es e rest', Digits fs ∧ Exponent es e ∧ cs = ds ++ '.' :: (fs ++ es) ∧ rest = '.' :: (fs ++ (es ++ rest')) := by
  have hnumber : Number cs kind value := by
    obtain ⟨c, tail, rfl, hc, -⟩ := hds.exists_cons
    obtain ⟨c', tail', rfl, -⟩ := h.exists_cons
    rw [List.cons_append, List.cons_prefix_cons] at hcs
    exact h.number (hcs.1 ▸ hc)
  rcases hnumber with ⟨hds', -⟩ | ⟨ds', fs, es, e, hds', hfs, hes, rfl, -⟩
  · exact .inl (length_le_run hrest hds'.2 hcs)
  · obtain ⟨rest', heq⟩ := hcs
    rw [List.append_assoc] at heq
    obtain ⟨rfl, hpoint⟩ := run_unique hds.2 hrest hds'.2 (not_starts_cons rfl _) heq
    exact .inr ⟨fs, es, e, rest', hfs, hes, rfl, by rw [← hpoint]; simp⟩

/-- Digits are the longest lexeme if neither a digit nor a point follows. -/
theorem longest_integer (hds : Digits ds) (hdigit : ¬ Starts Char.isDigit rest) (hpoint : ¬ Starts (· == '.') rest) :
    Longest ds rest := by
  intro cs kind value h hcs
  rcases hds.lexeme hdigit h hcs with hle | ⟨fs, es, e, rest', -, -, -, rfl⟩
  · exact hle
  · exact absurd (starts_cons.2 rfl) hpoint

/-- A number with a fraction is the longest lexeme if no digit follows, and no mark either where it has no exponent. -/
theorem longest_double {e : Int} (hds : Digits ds) (hfs : Digits fs) (hes : Exponent es e) (hmark : es = [] → ¬ Starts isMark rest)
    (hdigit : ¬ Starts Char.isDigit rest) : Longest (ds ++ '.' :: (fs ++ es)) rest := by
  intro cs kind value h hcs
  rw [List.append_assoc, List.cons_append, List.append_assoc] at hcs
  rcases hds.lexeme (not_starts_cons rfl _) h hcs with hle | ⟨fs', es', e', rest', hfs', hes', rfl, heq⟩
  · rw [List.length_append]
    omega
  have heq := (List.cons.inj heq).2
  simp only [List.length_append, List.length_cons]
  -- Without an exponent of its own the other lexeme ends in the digits of the fraction; with one it has all of them.
  rcases hes'.nil_or_not_starts rest' with rfl | htail'
  · have hle := length_le_run (hes.not_starts hdigit) hfs'.2 ⟨rest', heq.symm⟩
    rw [List.length_nil]
    omega
  · obtain ⟨rfl, htails⟩ := run_unique hfs.2 (hes.not_starts hdigit) hfs'.2 htail' heq.symm
    have hle := hes.length_le hmark hdigit hes' htails
    omega

end

/-- The characters of a word all go on with a name. -/
theorem Word.isNamePart {cs : List Char} (h : Word cs) : ∀ d ∈ cs, isNamePart d = true := by
  cases cs with
  | nil => exact h.elim
  | cons c cs => exact List.forall_mem_cons.2 ⟨isNamePart_of_isNameStart h.1, h.2⟩

/-- A word is the longest lexeme if nothing follows that goes on with it. -/
theorem longest_word {cs rest : List Char} (hcs : Word cs) (hrest : ¬ Starts isNamePart rest) : Longest cs rest := by
  intro cs' kind value h hpre
  cases cs with
  | nil => exact hcs.elim
  | cons c cs =>
    obtain ⟨c', tail, rfl, -⟩ := h.exists_cons
    obtain ⟨rfl, -⟩ := List.cons_prefix_cons.1 hpre
    exact length_le_run hrest (h.word hcs.1).1.isNamePart hpre

/-- A string is the longest lexeme, whatever follows. -/
theorem longest_string {quote : Char} {raw text : List Char} (hquote : quote = '"' ∨ quote = '\'') (h : Quoted quote raw text)
    (rest : List Char) : Longest (quote :: (raw ++ [quote])) rest := by
  intro cs kind value hcs hpre
  obtain ⟨c, tail, rfl, -⟩ := hcs.exists_cons
  rw [List.cons_append, List.cons_prefix_cons] at hpre
  obtain ⟨rfl, tail', htail⟩ := hpre
  obtain ⟨raw', text', rfl, h', -⟩ := hcs.quoted hquote
  simp only [List.append_assoc, List.singleton_append] at htail
  obtain ⟨rfl, -⟩ := h.unique hquote h' htail
  exact Nat.le_refl _

section

variable {c d : Char} {rest : List Char}

/-- A lexeme that starts where a symbol does is a symbol. -/
theorem Symbol.of_lexeme {cs : List Char} {kind : Token.Kind} {value : Token.Value} (hc : (single? c).isSome ∨ (paired? c).isSome)
    (h : Lexeme cs kind value) (hcs : cs <+: c :: rest) : Symbol cs kind := by
  obtain ⟨hdigit, hstart, hquote, -⟩ := symbol_start hc
  obtain ⟨c', tail, rfl, -⟩ := h.exists_cons
  obtain ⟨rfl, -⟩ := List.cons_prefix_cons.1 hcs
  exact (h.symbol hdigit hstart hquote).1

/-- A symbol that no other one starts with is the longest lexeme. -/
theorem longest_single {kind : Token.Kind} (hc : single? c = some kind) (rest : List Char) : Longest [c] rest := by
  intro cs kind' value h hcs
  cases Symbol.of_lexeme (.inl (Option.isSome_of_eq_some hc)) h hcs with
  | single | short => exact Nat.le_refl 1
  | long hnone =>
    obtain ⟨rfl, -⟩ := List.cons_prefix_cons.1 hcs
    cases hc.symm.trans hnone

/-- So is an operator of two characters. -/
theorem longest_long {kind : Token.Kind} {short : Option Token.Kind} (hc : paired? c = some (d, kind, short)) (rest : List Char) :
    Longest [c, d] rest := by
  intro cs kind' value h hcs
  cases Symbol.of_lexeme (.inr (Option.isSome_of_eq_some hc)) h hcs with
  | single | short => exact Nat.le_succ 1
  | long => exact Nat.le_refl 2

/-- The first character of an operator of two is the longest lexeme if the second one does not follow. -/
theorem longest_short {long : Token.Kind} {short : Option Token.Kind} (hc : paired? c = some (d, long, short))
    (hrest : ¬ Starts (· == d) rest) : Longest [c] rest := by
  intro cs kind' value h hcs
  cases Symbol.of_lexeme (.inr (Option.isSome_of_eq_some hc)) h hcs with
  | single | short => exact Nat.le_refl 1
  | long _ hc' =>
    rw [List.singleton_append, List.cons_prefix_cons] at hcs
    obtain ⟨rfl, tail, htail⟩ := hcs
    cases hc.symm.trans hc'
    exact absurd ⟨d, tail, htail.symm, beq_self_eq_true d⟩ hrest

end

end Lexical

end C0Stack
