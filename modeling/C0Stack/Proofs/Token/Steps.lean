import C0Stack.Token.Lexer

/-!
# The steps of a token

A token is cut in a few steps, and all but strings with the same ones: reads that take no line feed, the end of the token, and faults at
its start. What holds of the last step, and stays true as reads are put in front of it, holds of cutting such a token
(`Lexing.Stepwise`). In particular this is so if it holds of each of these steps, and of two steps done one after the other if it holds
of both (`Lexing.Closed`).
-/

namespace C0Stack.Lexing

/-- The property holds of the ends of tokens that start at `start`, and of faults there other than that a string does not end. It stays
true if a read that takes no line feed is put in front. -/
structure Stepwise (Q : Lexing Token → Prop) (start : Position) : Prop where
  nextIf : ∀ {p : Char → Bool} {k : Option Char → Lexing Token}, p '\n' = false → (∀ x, Q (k x)) →
    Q (Lexing.read (Source.nextIf p) >>= k)
  takeWhile : ∀ {p : Char → Bool} {k : List Char → Lexing Token}, p '\n' = false → (∀ x, Q (k x)) →
    Q (Lexing.read (Source.takeWhile p) >>= k)
  finish : ∀ (kind : Token.Kind) (value : Token.Value), Q (Lexing.finish kind value start)
  fail : ∀ {fault : LexFault}, fault ≠ .unterminatedString → Q (Lexing.fail fault start)

namespace Stepwise

variable {Q : Lexing Token → Prop} {start : Position}

/-- The property holds of integers. -/
theorem integer (h : Stepwise Q start) (digits : List Char) : Q (Lexing.integer digits start) := by
  unfold Lexing.integer
  split
  · exact h.finish _ _
  · exact h.fail nofun

/-- It holds of exponents. -/
theorem exponent (h : Stepwise Q start) (whole fraction : List Char) : Q (Lexing.exponent whole fraction start) := by
  refine h.nextIf (by decide) ?_
  intro mark
  cases mark with
  | none => exact h.finish _ _
  | some mark =>
    refine h.nextIf (by decide) ?_
    intro sign
    refine h.takeWhile (by decide) ?_
    intro digits
    split
    · exact h.fail nofun
    · exact h.finish _ _

/-- It holds of numbers. -/
theorem number (h : Stepwise Q start) (first : Char) : Q (Lexing.number first start) := by
  refine h.takeWhile (by decide) ?_
  intro digits
  refine h.nextIf (by decide) ?_
  intro point
  cases point with
  | none => exact h.integer _
  | some _ =>
    refine h.takeWhile (by decide) ?_
    intro fraction
    split
    · exact h.fail nofun
    · exact h.exponent _ _

/-- It holds of words. -/
theorem word (h : Stepwise Q start) (first : Char) : Q (Lexing.word first start) := by
  refine h.takeWhile (by decide) ?_
  intro rest
  dsimp only
  split <;> exact h.finish _ _

/-- It holds of symbols. -/
theorem symbol (h : Stepwise Q start) (first : Char) : Q (Lexing.symbol first start) := by
  unfold Lexing.symbol
  split
  · exact h.finish _ _
  · rename_i second long short hsingle hpaired
    have hsecond : ('\n' == second) = false := by
      unfold paired? at hpaired
      split at hpaired <;> cases hpaired <;> decide
    refine h.nextIf hsecond ?_
    intro found
    split
    · exact h.finish _ _
    · exact h.finish _ _
    · exact h.fail nofun
  · exact h.fail nofun

/-- A string may go over several lines, so what is said of it stands apart. -/
theorem tokenFrom (h : Stepwise Q start) (first : Char) (hstring : Q (Lexing.string first start)) :
    Q (Lexing.tokenFrom first start) := by
  unfold Lexing.tokenFrom
  split
  · exact h.number first
  · split
    · exact h.word first
    · split
      · exact hstring
      · exact h.symbol first

end Stepwise

/-- The property holds of all that is put together from reads that take no line feed, from the ends of tokens, and from faults at `start`
other than that a string does not end. -/
structure Closed (Q : ∀ α : Type, Lexing α → Prop) (start : Position) : Prop where
  bind : ∀ {α β : Type} {m : Lexing α} {k : α → Lexing β}, Q α m → (∀ x, Q β (k x)) → Q β (m >>= k)
  nextIf : ∀ {p : Char → Bool}, p '\n' = false → Q _ (Lexing.read (Source.nextIf p))
  takeWhile : ∀ {p : Char → Bool}, p '\n' = false → Q _ (Lexing.read (Source.takeWhile p))
  finish : ∀ (kind : Token.Kind) (value : Token.Value), Q _ (Lexing.finish kind value start)
  fail : ∀ {fault : LexFault}, fault ≠ .unterminatedString → Q Token (Lexing.fail fault start)

namespace Closed

variable {Q : ∀ α : Type, Lexing α → Prop} {start : Position}

/-- What is closed under two steps in sequence stays true as reads are put in front. -/
theorem stepwise (h : Closed Q start) : Stepwise (Q Token) start where
  nextIf hp hk := h.bind (h.nextIf hp) hk
  takeWhile hp hk := h.bind (h.takeWhile hp) hk
  finish := h.finish
  fail := h.fail

theorem number (h : Closed Q start) (first : Char) : Q _ (Lexing.number first start) := h.stepwise.number first

theorem word (h : Closed Q start) (first : Char) : Q _ (Lexing.word first start) := h.stepwise.word first

theorem symbol (h : Closed Q start) (first : Char) : Q _ (Lexing.symbol first start) := h.stepwise.symbol first

/-- It holds of every token, if it holds of strings. -/
theorem tokenFrom (h : Closed Q start) (first : Char) (hstring : Q _ (Lexing.string first start)) :
    Q _ (Lexing.tokenFrom first start) := h.stepwise.tokenFrom first hstring

end Closed

end C0Stack.Lexing
