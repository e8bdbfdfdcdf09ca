import C0Stack.Token.Stream

/-!
# The shape of tokens

An integer literal is the only token that holds an integer. The type of tokens allows others; that the lexer makes none of them
(`Source.wellShaped_of_mem_lex`) is what lets a reader look at the value of a token before its kind.
-/

namespace C0Stack

/-- The token holds an integer exactly if it is an integer literal. -/
def Token.WellShaped (t : Token) : Prop := t.kind = .integer ↔ ∃ n, t.value = .integer n

/-- A token of another kind holds no integer. -/
theorem Token.WellShaped.value_ne {t : Token} (h : t.WellShaped) (hk : t.kind ≠ .integer) (n : UInt64) :
    t.value ≠ .integer n := by
  intro hv
  exact hk (h.2 ⟨n, hv⟩)

namespace Lexing

/-- The step gives back only tokens of which `P` holds. -/
def Gives (P : Token → Prop) (m : Lexing Token) : Prop := ∀ (s s' : Source) (t : Token), m.on s = (.ok t, s') → P t

/-- What the last of two steps gives back is what both give back. -/
theorem Gives.bind {P : Token → Prop} {α : Type} {m : Lexing α} {f : α → Lexing Token} (hf : ∀ a, Gives P (f a)) :
    Gives P (m >>= f) := by
  intro s s' t h
  rw [on_bind] at h
  split at h
  · exact hf _ _ _ _ h
  · simp at h

/-- The step gives back only tokens of a good shape, and none that stands for the end. -/
def Shapes (m : Lexing Token) : Prop := Gives (fun t => t.WellShaped ∧ t.kind ≠ .endOfFile) m

/-- The last of two steps decides about the shape. -/
theorem Shapes.bind {α : Type} {m : Lexing α} {f : α → Lexing Token} (hf : ∀ a, (f a).Shapes) : (m >>= f).Shapes := Gives.bind hf

/-- The end of a token that has a good shape. -/
theorem Shapes.finish {kind : Token.Kind} {value : Token.Value} (h : kind = .integer ↔ ∃ n, value = .integer n)
    (hkind : kind ≠ .endOfFile) (start : Position) : (Lexing.finish kind value start).Shapes := by
  rintro s s' t ⟨⟩
  exact ⟨h, hkind⟩

/-- A step that fails gives back no token. -/
theorem Shapes.fail (fault : LexFault) (pos : Position) : (Lexing.fail fault pos).Shapes := by
  intro s s' t h
  simp [Lexing.on, Lexing.fail] at h

/-- An integer literal has a good shape. -/
theorem Shapes.integer (digits : List Char) (start : Position) : (Lexing.integer digits start).Shapes := by
  unfold Lexing.integer
  split
  · exact .finish (by simp) (by simp) start
  · exact .fail _ _

/-- A number with an exponent has a good shape. -/
theorem Shapes.exponent (whole fraction : List Char) (start : Position) :
    (Lexing.exponent whole fraction start).Shapes := by
  refine .bind fun mark => ?_
  cases mark with
  | none => exact .finish (by simp) (by simp) start
  | some mark =>
    refine .bind fun sign => .bind fun digits => ?_
    split
    · exact .fail _ _
    · exact .finish (by simp) (by simp) start

/-- A number has a good shape. -/
theorem Shapes.number (first : Char) (start : Position) : (Lexing.number first start).Shapes := by
  refine .bind fun digits => .bind fun point => ?_
  cases point with
  | none => exact .integer _ _
  | some _ =>
    refine .bind fun fraction => ?_
    split
    · exact .fail _ _
    · exact .exponent _ _ _

/-- A keyword is neither an integer literal nor the end. -/
theorem keyword?_ne {word : String} {kind : Token.Kind} (h : Token.Kind.keyword? word = some kind) :
    kind ≠ .integer ∧ kind ≠ .endOfFile := by
  have hmem : kind ∈ Token.Kind.keywords := List.mem_of_find?_eq_some h
  constructor <;> rintro rfl <;> simp [Token.Kind.keywords] at hmem

/-- A word has a good shape. -/
theorem Shapes.word (first : Char) (start : Position) : (Lexing.word first start).Shapes := by
  refine .bind fun rest => ?_
  simp only
  split
  · rename_i kind h
    obtain ⟨hinteger, hend⟩ := keyword?_ne h
    exact .finish (by simp [hinteger]) hend start
  · exact .finish (by simp) (by simp) start

/-- A string has a good shape. -/
theorem Shapes.string (quote : Char) (start : Position) : (Lexing.string quote start).Shapes := by
  refine .bind fun cs => ?_
  cases cs with
  | none => exact .fail _ _
  | some cs => exact .finish (by simp) (by simp) start

/-- The kind of a single character is not that of an integer literal or of the end. -/
theorem single?_ne {c : Char} {kind : Token.Kind} (h : single? c = some kind) : kind ≠ .integer ∧ kind ≠ .endOfFile := by
  constructor <;> rintro rfl <;> unfold single? at h <;> split at h <;> simp at h

/-- The kinds of an operator of one or two characters are not those of an integer literal or of the end. -/
theorem paired?_ne {c second : Char} {long : Token.Kind} {short : Option Token.Kind}
    (h : paired? c = some (second, long, short)) :
    (long ≠ .integer ∧ short ≠ some .integer) ∧ long ≠ .endOfFile ∧ short ≠ some .endOfFile := by
  unfold paired? at h
  split at h <;> simp only [Option.some.injEq, Prod.mk.injEq, reduceCtorEq] at h <;>
    (obtain ⟨-, rfl, rfl⟩ := h; simp)

/-- A symbol has a good shape. -/
theorem Shapes.symbol (first : Char) (start : Position) : (Lexing.symbol first start).Shapes := by
  unfold Lexing.symbol
  split
  · rename_i kind h
    obtain ⟨hinteger, hend⟩ := single?_ne h
    exact .finish (by simp [hinteger]) hend start
  · rename_i second long short _ h
    obtain ⟨⟨hlong, hshort⟩, hlongEnd, hshortEnd⟩ := paired?_ne h
    refine .bind fun found => ?_
    split
    · exact .finish (by simp [hlong]) hlongEnd start
    · rename_i kind _ _
      exact .finish (by simpa using hshort) (by simpa using hshortEnd) start
    · exact .fail _ _
  · exact .fail _ _

/-- A token from its first character on has a good shape. -/
theorem Shapes.tokenFrom (first : Char) (start : Position) : (Lexing.tokenFrom first start).Shapes := by
  unfold Lexing.tokenFrom
  split
  · exact .number _ _
  · split
    · exact .word _ _
    · split
      · exact .string _ _
      · exact .symbol _ _

/-- The next token has a good shape, also at the end of the text. -/
theorem gives_wellShaped_token : Gives Token.WellShaped Lexing.token := by
  refine .bind fun _ => .bind fun start => .bind fun c => ?_
  cases c with
  | none =>
    rintro s s' t ⟨⟩
    simp [Token.WellShaped, Token.endAt]
  | some c =>
    intro s s' t h
    exact (Shapes.tokenFrom c start s s' t h).1

end Lexing

/-- Every token of a source has a good shape. -/
theorem Source.wellShaped_of_mem_lex (s : Source) {t : Token} (h : t ∈ s.lex.tokens) : t.WellShaped := by
  fun_induction lex s with
  | case1 s t' s' hs hend => simp at h
  | case2 s t' s' hs hend rest ih =>
    rcases List.mem_cons.1 h with rfl | h
    · exact Lexing.gives_wellShaped_token s s' t hs
    · exact ih h
  | case3 s e s' hs => simp at h

end C0Stack
