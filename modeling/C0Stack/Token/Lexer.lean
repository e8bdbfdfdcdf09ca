import C0Stack.Diagnostic
import C0Stack.Source
import C0Stack.Text.Alphabetic
import C0Stack.Text.Blank
import C0Stack.Text.Numeric
import C0Stack.Token.Basic

/-!
# Cutting tokens from a source

`Source.token` skips white space and takes the longest token that starts at the next character. After a fault the source stands at
the first character that was not taken, and the next call goes on from there.

`Source.lex` cuts the whole text, up to its end or its first fault. It ends because every token takes at least one character
(`Source.size_token_lt`).
-/

namespace C0Stack

/-- A step of the lexer: it may fail, and what it took from the source stays taken. -/
abbrev Lexing (α : Type) := ExceptT LexError (StateM Source) α

namespace Lexing

/-- Runs the step on a source. -/
def on {α : Type} (m : Lexing α) (s : Source) : Except LexError α × Source := m s

/-- A read from the source. A failure is reported at the place the source has reached. -/
def read {α : Type} (f : Source → Except ReadError α × Source) : Lexing α := fun s =>
  match f s with
  | (.ok a, s') => (.ok a, s')
  | (.error e, s') => (.error ⟨.unreadable e.message, s'.pos⟩, s')

/-- The place of the next character. -/
def here : Lexing Position := fun s => (.ok s.pos, s)

/-- Fails. -/
def fail {α : Type} (fault : LexFault) (pos : Position) : Lexing α := fun s => (.error ⟨fault, pos⟩, s)

/-- The token that began at `start` and ends here. -/
def finish (kind : Token.Kind) (value : Token.Value) (start : Position) : Lexing Token := fun s =>
  (.ok ⟨kind, value, start, s.pos⟩, s)

/-! ## Numbers -/

/-- The number that the decimal digits spell. -/
def decimalValue (digits : List Char) : Nat := digits.foldl (fun n c => 10 * n + (c.toNat - 48)) 0

/-- The integer literal, if it fits in 64 bits. -/
def integer (digits : List Char) (start : Position) : Lexing Token :=
  if decimalValue digits < Nat.pow 2 64 then finish .integer (.integer (decimalValue digits).toUInt64) start
  else fail (.integerOverflow (String.ofList digits)) start

/-- The double literal with the given digits before and after the point and the given exponent. -/
def doubleValue (whole fraction : List Char) (negative : Bool) (exponent : List Char) : Double :=
  let e : Int := decimalValue exponent
  Double.ofDecimal ⟨decimalValue (whole ++ fraction), (if negative then -e else e) - fraction.length⟩

/-- The rest of a double literal after its fraction: an exponent has a mark, perhaps a sign, and at least one digit. -/
def exponent (whole fraction : List Char) (start : Position) : Lexing Token := do
  match ← read (Source.nextIf fun c => c == 'e' || c == 'E') with
  | none => finish .double (.double (doubleValue whole fraction false [])) start
  | some mark =>
    let sign ← read (Source.nextIf fun c => c == '+' || c == '-')
    let digits ← read (Source.takeWhile Char.isDigit)
    if digits.isEmpty then
      fail (.malformedDouble (String.ofList (whole ++ '.' :: fraction ++ mark :: sign.toList))) start
    else finish .double (.double (doubleValue whole fraction (sign == some '-') digits)) start

/-- The rest of a number that starts with a digit: without a point it is an integer, with one it has a fraction. -/
def number (first : Char) (start : Position) : Lexing Token := do
  let digits ← read (Source.takeWhile Char.isDigit)
  match ← read (Source.nextIf (· == '.')) with
  | none => integer (first :: digits) start
  | some _ =>
    let fraction ← read (Source.takeWhile Char.isDigit)
    if fraction.isEmpty then fail (.malformedDouble (String.ofList (first :: digits ++ ['.']))) start
    else exponent (first :: digits) fraction start

/-! ## Names and keywords -/

/-- The character may start a name. -/
def isNameStart (c : Char) : Bool := Text.isAlphabetic c || c == '_'

/-- The character may go on a name. -/
def isNamePart (c : Char) : Bool := Text.isAlphabetic c || Text.isNumeric c || c == '_'

/-- The rest of a word: a keyword, or else a name. -/
def word (first : Char) (start : Position) : Lexing Token := do
  let rest ← read (Source.takeWhile isNamePart)
  let text := String.ofList (first :: rest)
  match Token.Kind.keyword? text with
  | some kind => finish kind .empty start
  | none => finish .name (.text text) start

/-! ## String literals -/

/-- The characters up to the closing quote, which is taken but not returned: the first quote that no backslash escapes. None if
the input ends before it. `escaped` says that the character before was a backslash that escapes the next one. -/
def quotedChars (quote : Char) (escaped : Bool) (s : Source) : Except ReadError (Option (List Char)) × Source :=
  match _h : s.next with
  | (.ok (some c), s') =>
    if c = quote ∧ escaped = false then (.ok (some []), s')
    else
      match quotedChars quote (c == '\\' && !escaped) s' with
      | (.ok (some cs), s'') => (.ok (some (c :: cs)), s'')
      | (.ok none, s'') => (.ok none, s'')
      | (.error e, s'') => (.error e, s'')
  | (.ok none, s') => (.ok none, s')
  | (.error e, s') => (.error e, s')
termination_by s.size
decreasing_by exact Source.size_nextIf_lt _h

/-- What a backslash and the character after it stand for. A pair without a meaning stands for itself. -/
def escapeValue : Char → List Char
  | 'n' => ['\n']
  | 't' => ['\t']
  | 'r' => ['\r']
  | '\\' => ['\\']
  | '"' => ['"']
  | '\'' => ['\'']
  | c => ['\\', c]

/-- The text of a string literal from the characters between its quotes. -/
def unescape : List Char → List Char
  | '\\' :: c :: rest => escapeValue c ++ unescape rest
  | c :: rest => c :: unescape rest
  | [] => []

/-- The rest of a string literal after its opening quote. -/
def string (quote : Char) (start : Position) : Lexing Token := do
  match ← read (quotedChars quote false) with
  | some cs => finish .string (.text (String.ofList (unescape cs))) start
  | none => fail .unterminatedString start

/-! ## Operators and punctuation -/

/-- The operators and punctuation marks that no other one starts with. -/
def single? : Char → Option Token.Kind
  | '+' => some .plus
  | '*' => some .star
  | '/' => some .slash
  | '(' => some .openParen
  | ')' => some .closeParen
  | '\x7b' => some .openBrace
  | '\x7d' => some .closeBrace
  | ',' => some .comma
  | ':' => some .colon
  | ';' => some .semicolon
  | _ => none

/-- The characters that start an operator of two: its second character and its kind, and the kind of the character alone. -/
def paired? : Char → Option (Char × Token.Kind × Option Token.Kind)
  | '-' => some ('>', .arrow, some .minus)
  | '=' => some ('=', .equal, some .assign)
  | '<' => some ('=', .lessEqual, some .less)
  | '>' => some ('=', .greaterEqual, some .greater)
  | '!' => some ('=', .notEqual, none)
  | _ => none

/-- The rest of an operator or punctuation mark. -/
def symbol (first : Char) (start : Position) : Lexing Token :=
  match single? first, paired? first with
  | some kind, _ => finish kind .empty start
  | none, some (second, long, short) => do
    match ← read (Source.nextIf (· == second)), short with
    | some _, _ => finish long .empty start
    | none, some kind => finish kind .empty start
    | none, none => fail (.incompleteOperator first) start
  | none, none => fail (.invalidCharacter first) start

/-- The rest of the token that starts with the given character. -/
def tokenFrom (first : Char) (start : Position) : Lexing Token :=
  if first.isDigit then number first start
  else if isNameStart first then word first start
  else if first = '"' ∨ first = '\'' then string first start
  else symbol first start

/-- The next token. At the end of the input it is the token that stands for the end. -/
def token : Lexing Token := do
  let _ ← read (Source.takeWhile Text.isBlank)
  let start ← here
  match ← read Source.next with
  | none => return Token.endAt start
  | some c => tokenFrom c start

/-! ## What a step takes -/

/-- The step leaves no more to read than there was. -/
def Keeps {α : Type} (m : Lexing α) : Prop := ∀ s : Source, (m.on s).2.size ≤ s.size

/-- Two steps in sequence: a fault in the first one is the fault of both. -/
theorem on_bind {α β : Type} (m : Lexing α) (f : α → Lexing β) (s : Source) :
    (m >>= f).on s =
      match m.on s with
      | (.ok a, s') => (f a).on s'
      | (.error e, s') => (.error e, s') := by
  simp only [on, bind, ExceptT.bind, ExceptT.mk, StateT.bind, ExceptT.bindCont]
  cases h : m s with
  | mk r s' => cases r <;> rfl

/-- Two steps in sequence leave no more to read. -/
theorem Keeps.bind {α β : Type} {m : Lexing α} {f : α → Lexing β} (hm : m.Keeps) (hf : ∀ a, (f a).Keeps) :
    (m >>= f).Keeps := by
  intro s
  have h := hm s
  rw [on_bind]
  cases hr : m.on s with
  | mk r s' =>
    rw [hr] at h
    cases r with
    | ok a => exact Nat.le_trans (hf a s') h
    | error e => exact h

/-- A read leaves no more to read. -/
theorem Keeps.read {α : Type} {f : Source → Except ReadError α × Source} (h : ∀ s, (f s).2.size ≤ s.size) :
    (Lexing.read f).Keeps := by
  intro s
  have hs := h s
  unfold on Lexing.read
  split <;> simp_all

theorem Keeps.finish (kind : Token.Kind) (value : Token.Value) (start : Position) :
    (Lexing.finish kind value start).Keeps := fun _ => Nat.le_refl _

theorem Keeps.fail {α : Type} (fault : LexFault) (pos : Position) : (Lexing.fail fault pos : Lexing α).Keeps :=
  fun _ => Nat.le_refl _

/-- The characters of a string are taken from what there is to read. -/
theorem size_quotedChars_le (quote : Char) (escaped : Bool) (s : Source) :
    (quotedChars quote escaped s).2.size ≤ s.size := by
  fun_induction quotedChars quote escaped s with
  | case1 _ s _ s' hs _ => exact Nat.le_of_lt (Source.size_nextIf_lt hs)
  | case2 _ s _ s' hs _ cs s'' hr ih | case3 _ s _ s' hs _ s'' hr ih | case4 _ s _ s' hs _ e s'' hr ih =>
    have := Source.size_nextIf_lt hs
    rw [hr] at ih
    simp only at ih ⊢
    omega
  | case5 _ s s' hs | case6 _ s e s' hs =>
    have := Source.size_nextIf_le (fun _ => true) s
    unfold Source.next at hs
    rw [hs] at this
    exact this

/-- An integer is made of digits that have been taken. -/
theorem Keeps.integer (digits : List Char) (start : Position) : (Lexing.integer digits start).Keeps := by
  unfold Lexing.integer
  split
  · exact .finish _ _ _
  · exact .fail _ _

/-- The exponent of a number leaves no more to read. -/
theorem Keeps.exponent (whole fraction : List Char) (start : Position) :
    (Lexing.exponent whole fraction start).Keeps := by
  refine .bind (.read (Source.size_nextIf_le _)) fun mark => ?_
  cases mark with
  | none => exact .finish _ _ _
  | some mark =>
    refine .bind (.read (Source.size_nextIf_le _)) fun sign => .bind (.read (Source.size_takeWhile_le _)) fun digits => ?_
    split
    · exact .fail _ _
    · exact .finish _ _ _

/-- A number leaves no more to read. -/
theorem Keeps.number (first : Char) (start : Position) : (Lexing.number first start).Keeps := by
  refine .bind (.read (Source.size_takeWhile_le _)) fun digits => .bind (.read (Source.size_nextIf_le _)) fun point => ?_
  cases point with
  | none => exact .integer _ _
  | some _ =>
    refine .bind (.read (Source.size_takeWhile_le _)) fun fraction => ?_
    split
    · exact .fail _ _
    · exact .exponent _ _ _

theorem Keeps.word (first : Char) (start : Position) : (Lexing.word first start).Keeps := by
  refine .bind (.read (Source.size_takeWhile_le _)) fun rest => ?_
  simp only
  split <;> exact .finish _ _ _

/-- A string leaves no more to read. -/
theorem Keeps.string (quote : Char) (start : Position) : (Lexing.string quote start).Keeps := by
  refine .bind (.read (size_quotedChars_le quote false)) fun cs => ?_
  cases cs with
  | none => exact .fail _ _
  | some cs => exact .finish _ _ _

/-- A symbol leaves no more to read. -/
theorem Keeps.symbol (first : Char) (start : Position) : (Lexing.symbol first start).Keeps := by
  unfold Lexing.symbol
  split
  · exact .finish _ _ _
  · refine .bind (.read (Source.size_nextIf_le _)) fun second => ?_
    split
    · exact .finish _ _ _
    · exact .finish _ _ _
    · exact .fail _ _
  · exact .fail _ _

/-- A token leaves no more to read. -/
theorem Keeps.tokenFrom (first : Char) (start : Position) : (Lexing.tokenFrom first start).Keeps := by
  unfold Lexing.tokenFrom
  split
  · exact .number _ _
  · split
    · exact .word _ _
    · split
      · exact .string _ _
      · exact .symbol _ _

end Lexing

namespace Source

/-- The next token, or the fault that keeps it from being cut, and the source behind it. -/
def token (s : Source) : Except LexError Token × Source := Lexing.token.on s

/-- A token other than the end takes at least one character. -/
theorem size_token_lt {s s' : Source} {t : Token} (h : s.token = (.ok t, s')) (ht : t.kind ≠ .endOfFile) :
    s'.size < s.size := by
  unfold token Lexing.token at h
  rw [Lexing.on_bind] at h
  have hblank := Lexing.Keeps.read (size_takeWhile_le Text.isBlank) s
  cases hr : (Lexing.read (takeWhile Text.isBlank)).on s with
  | mk r s₁ =>
    rw [hr] at h hblank
    cases r with
    | error e => simp at h
    | ok _ =>
      simp only at h hblank
      rw [Lexing.on_bind] at h
      simp only [Lexing.here, Lexing.on] at h
      change Lexing.on (Lexing.read Source.next >>= _) s₁ = _ at h
      rw [Lexing.on_bind] at h
      simp only [Lexing.read, Lexing.on] at h
      cases hn : s₁.next with
      | mk r₂ s₂ =>
        rw [hn] at h
        cases r₂ with
        | error e => simp at h
        | ok c =>
          cases c with
          | none =>
            cases h
            exact absurd rfl ht
          | some c =>
            have hlt := size_nextIf_lt hn
            have hle := Lexing.Keeps.tokenFrom c s₁.pos s₂
            simp only at h
            unfold Lexing.on at hle
            rw [h] at hle
            simp only at hle
            omega

/-- A text cut into tokens: the tokens before its end or before its first fault, and how it ends. -/
structure Lexed where
  tokens : List Token
  ending : Except LexError Position

/-- Cuts the whole source into tokens. -/
def lex (s : Source) : Lexed :=
  match _h : s.token with
  | (.ok t, s') =>
    if _ht : t.kind = .endOfFile then ⟨[], .ok t.start⟩
    else
      let rest := lex s'
      ⟨t :: rest.tokens, rest.ending⟩
  | (.error e, _) => ⟨[], .error e⟩
termination_by s.size
decreasing_by exact size_token_lt _h _ht

/-- All tokens of the source, the one that stands for its end included, or its first fault. -/
def tokenize (s : Source) : Except LexError (List Token) :=
  match s.lex with
  | ⟨tokens, .ok pos⟩ => .ok (tokens ++ [Token.endAt pos])
  | ⟨_, .error e⟩ => .error e

/-- A source has tokens exactly if it can be cut up to its end. -/
theorem tokenize_eq_ok {s : Source} {tokens : List Token} :
    s.tokenize = .ok tokens ↔ ∃ pos, s.lex.ending = .ok pos ∧ tokens = s.lex.tokens ++ [Token.endAt pos] := by
  unfold tokenize
  rcases s.lex with ⟨ts, error | pos⟩
  · simp
  · simp [eq_comm]

end Source

end C0Stack
