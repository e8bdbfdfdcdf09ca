import C0Stack.Token.Lexer

/-!
# Token streams

The tokens of a text from some place on, and what comes after the last of them: the end of the text, or the fault that keeps it
from being read on. A reader that meets a token it cannot use breaks the stream with its own fault. From then on every attempt to
read fails with that same fault, so the first one is the one that is reported.
-/

namespace C0Stack

/-- The tokens that are left to read, and what comes after them. -/
inductive TokenStream where
  | done (pos : Position)
  | broken (error : Diagnostic)
  | more (first : Token) (rest : TokenStream)
deriving DecidableEq, Repr, Inhabited

namespace TokenStream

/-- The number of tokens that are left to read. -/
def length : TokenStream → Nat
  | done _ => 0
  | broken _ => 0
  | more _ rest => rest.length + 1

@[simp] theorem length_done (pos : Position) : (done pos).length = 0 := rfl

@[simp] theorem length_broken (error : Diagnostic) : (broken error).length = 0 := rfl

@[simp] theorem length_more (first : Token) (rest : TokenStream) : (more first rest).length = rest.length + 1 := rfl

/-- The stream of a text that was cut into tokens. -/
def ofLexed (l : Source.Lexed) : TokenStream :=
  l.tokens.foldr more <|
    match l.ending with
    | .ok pos => done pos
    | .error e => broken e.toDiagnostic

/-- The stream of all tokens of a source. -/
def ofSource (s : Source) : TokenStream := ofLexed s.lex

/-- The next token. After the last one it is the token that stands for the end. -/
def head : TokenStream → Except Diagnostic Token
  | done pos => .ok (Token.endAt pos)
  | broken error => .error error
  | more first _ => .ok first

/-- The stream behind the next token. The end is never passed. -/
def tail : TokenStream → TokenStream
  | more _ rest => rest
  | t => t

/-- The next token is of the given kind. -/
def startsWith (kind : Token.Kind) (t : TokenStream) : Bool :=
  match t.head with
  | .ok token => token.kind == kind
  | .error _ => false

/-- Behind the next token there are no more tokens than before. -/
theorem length_tail_le (t : TokenStream) : t.tail.length ≤ t.length := by
  cases t <;> simp [tail]

/-- Behind a token other than the end there are fewer tokens. -/
theorem length_tail_lt {t : TokenStream} {kind : Token.Kind} (h : t.startsWith kind = true) (hk : kind ≠ .endOfFile) :
    t.tail.length < t.length := by
  cases t with
  | done pos =>
    simp only [startsWith, head, Token.endAt, beq_iff_eq] at h
    exact absurd h.symm hk
  | broken error => simp [startsWith, head] at h
  | more first rest => simp [tail]

/-- The fault that the next token is of none of the expected kinds. -/
def unexpected (expected : List Token.Kind) (t : TokenStream) : Diagnostic :=
  match t.head with
  | .ok token => ⟨.unexpected expected token.kind, token.start⟩
  | .error error => error

end TokenStream

/-- Something read from a stream, and the stream behind it, of which at most `bound` tokens are left. -/
structure Parsed (α : Type) (bound : Nat) where
  value : α
  rest : TokenStream
  length_le : rest.length ≤ bound

namespace TokenStream

/-! What a reader leaves is bounded by what the readers leave that it calls. -/

theorem length_le_self (t : TokenStream) : t.length ≤ t.length := Nat.le_refl _

theorem length_le_of_pred {t t₁ : TokenStream} (h : t₁.length ≤ t.length - 1) : t₁.length ≤ t.length := by omega

theorem length_le_of_pred_pred {t t₁ t₂ : TokenStream} (h₁ : t₁.length ≤ t.length - 1) (h₂ : t₂.length ≤ t₁.length - 1) :
    t₂.length ≤ t.length := by omega

theorem length_le_pred_of_pred_pred {t t₁ t₂ : TokenStream} (h₁ : t₁.length ≤ t.length - 1)
    (h₂ : t₂.length ≤ t₁.length - 1) : t₂.length ≤ t.length - 1 := by omega

theorem length_le_pred_of_pred_le {t t₁ t₂ : TokenStream} (h₁ : t₁.length ≤ t.length - 1) (h₂ : t₂.length ≤ t₁.length) :
    t₂.length ≤ t.length - 1 := Nat.le_trans h₂ h₁

theorem length_le_more (first : Token) {rest t : TokenStream} (h : t.length ≤ rest.length) :
    t.length ≤ (more first rest).length := Nat.le_succ_of_le h

theorem length_le_pred_more (first : Token) {rest t : TokenStream} (h : t.length ≤ rest.length) :
    t.length ≤ (more first rest).length - 1 := h

theorem length_le_pred_more_of_pred (first : Token) {rest t : TokenStream} (h : t.length ≤ rest.length - 1) :
    t.length ≤ (more first rest).length - 1 := length_le_of_pred h

theorem length_rest_le (first : Token) (rest : TokenStream) : rest.length ≤ (more first rest).length - 1 := Nat.le_refl _

theorem length_broken_le (error : Diagnostic) (t : TokenStream) : (broken error).length ≤ t.length := Nat.zero_le _

theorem length_broken_le_pred (error : Diagnostic) (t : TokenStream) : (broken error).length ≤ t.length - 1 := Nat.zero_le _

theorem length_broken_le_more (error : Diagnostic) (first : Token) (rest : TokenStream) :
    (broken error).length ≤ (more first rest).length - 1 := Nat.zero_le _

theorem length_broken_le_done (error : Diagnostic) (pos : Position) : (broken error).length ≤ (done pos).length - 1 :=
  Nat.zero_le _

theorem length_broken_le_broken (error : Diagnostic) : (broken error).length ≤ (broken error).length - 1 := Nat.zero_le _

/-- Takes a token of the given kind. If another one comes next, the stream breaks. -/
def take (kind : Token.Kind) (t : TokenStream) : Parsed (Except Diagnostic Token) (t.length - 1) :=
  match t with
  | more first rest =>
    if first.kind = kind then ⟨.ok first, rest, length_rest_le first rest⟩
    else
      let error : Diagnostic := ⟨.unexpected [kind] first.kind, first.start⟩
      ⟨.error error, broken error, length_broken_le_more error first rest⟩
  | done pos =>
    if kind = .endOfFile then ⟨.ok (Token.endAt pos), done pos, by simp⟩
    else
      let error : Diagnostic := ⟨.unexpected [kind] .endOfFile, pos⟩
      ⟨.error error, broken error, length_broken_le_done error pos⟩
  | broken error => ⟨.error error, broken error, length_broken_le_broken error⟩

end TokenStream

end C0Stack
