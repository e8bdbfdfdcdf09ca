import Mathlib.Data.List.Basic
import C0Stack.Text.Lines
import C0Stack.Proofs.Token.Cutting

/-!
# Counting lines

Two ways to count the lines of a text. For the place of a character every line feed starts a new line; a reader sees no line behind the
last line feed. They agree up to that line: a place of the text lies on a line that the reader sees, or it is the end of a text of whole
lines (`Text.line_place_le`).
-/

namespace C0Stack.Text

/-- The text is made of whole lines: if there is any of it, a line feed ends it. -/
def WholeLines (cs : List Char) : Prop := ∀ c ∈ cs.getLast?, c = '\n'

section

variable {c : Char} {cs ds : List Char}

/-- The end of a text of whole lines is made of whole lines. -/
theorem WholeLines.suffix (h : WholeLines cs) (hsuffix : ds <:+ cs) : WholeLines ds := by
  obtain ⟨es, rfl⟩ := hsuffix
  intro c hc
  have hne : ds ≠ [] := by
    rintro rfl
    cases hc
  refine h c ?_
  rwa [List.getLast?_append_of_ne_nil es hne]

/-- Whole lines behind whole lines. -/
theorem WholeLines.append (h : WholeLines cs) (h' : WholeLines ds) : WholeLines (cs ++ ds) := by
  by_cases hds : ds = []
  · rwa [hds, List.append_nil]
  · intro c hc
    rw [List.getLast?_append_of_ne_nil cs hds] at hc
    exact h' c hc

/-- A text that ends in a line feed is made of whole lines. -/
theorem wholeLines_concat (cs : List Char) : WholeLines (cs ++ ['\n']) := by
  intro c hc
  rw [List.getLast?_concat] at hc
  cases hc
  rfl

/-- A character in front of whole lines, or a line feed alone. -/
theorem wholeLines_cons_iff : WholeLines (c :: cs) ↔ (cs = [] → c = '\n') ∧ WholeLines cs := by
  cases cs with
  | nil => simp [WholeLines]
  | cons d ds => simp [WholeLines]

/-- The last character of whole lines is a line feed. -/
theorem WholeLines.getLast?_eq (h : WholeLines cs) (hne : cs ≠ []) : cs.getLast? = some '\n' := by
  have hlast := List.getLast_mem_getLast? hne
  rwa [h _ hlast] at hlast

theorem WholeLines.mem (h : WholeLines cs) (hne : cs ≠ []) : '\n' ∈ cs := List.mem_of_getLast? (h.getLast?_eq hne)

/-- Behind another character there is a line feed to come. -/
theorem WholeLines.mem_tail (h : WholeLines (c :: cs)) (hc : c ≠ '\n') : '\n' ∈ cs :=
  (List.mem_cons.1 (h.mem (List.cons_ne_nil c cs))).resolve_left (Ne.symm hc)

/-- A text of whole lines ends where the line behind them starts. -/
theorem WholeLines.place_eq (h : WholeLines cs) : Lexical.place cs = ⟨cs.count '\n' + 1, 1⟩ := by
  induction cs using List.reverseRecOn with
  | nil => rfl
  | append_singleton cs c _ =>
    obtain rfl : c = '\n' := h c (by simp)
    simp [Lexical.place]

end

/-! ## The lines that a reader sees -/

/-- A character in front of the first line makes one line if there was none. -/
theorem length_consFirst (c : Char) (lines : List (List Char)) : (consFirst c lines).length = max lines.length 1 := by
  cases lines with
  | nil => rfl
  | cons line lines => simp [consFirst]

/-- There is a line for each line feed, and one more if the last line has none. -/
theorem length_splitLines (cs : List Char) :
    WholeLines cs ∧ (splitLines cs).length = cs.count '\n' ∨ ¬ WholeLines cs ∧ (splitLines cs).length = cs.count '\n' + 1 := by
  fun_induction splitLines cs with
  | case1 => exact .inl ⟨nofun, rfl⟩
  | case2 rest ih =>
    have hwhole : WholeLines ('\n' :: rest) ↔ WholeLines rest := by simp [wholeLines_cons_iff]
    rw [hwhole, List.length_cons, List.count_cons_self, Nat.add_right_cancel_iff, Nat.add_right_cancel_iff]
    exact ih
  | case3 rest ih =>
    have hwhole : WholeLines ('\r' :: '\n' :: rest) ↔ WholeLines rest := by simp [wholeLines_cons_iff]
    have hcount : List.count '\n' ('\r' :: '\n' :: rest) = rest.count '\n' + 1 := by simp
    rw [hwhole, hcount, List.length_cons, Nat.add_right_cancel_iff, Nat.add_right_cancel_iff]
    exact ih
  | case4 c rest hfeed _ ih =>
    rw [length_consFirst, List.count_cons_of_ne hfeed]
    by_cases hrest : rest = []
    · subst hrest
      exact .inr ⟨fun h => hfeed ((wholeLines_cons_iff.1 h).1 rfl), rfl⟩
    · have hwhole : WholeLines (c :: rest) ↔ WholeLines rest := by simp [wholeLines_cons_iff, hrest]
      rw [hwhole]
      rcases ih with ⟨h, hlength⟩ | ⟨h, hlength⟩
      · have hcount := List.count_pos_iff.2 (h.mem hrest)
        exact .inl ⟨h, by omega⟩
      · exact .inr ⟨h, by omega⟩

/-- A place of the text lies on one of the lines that a reader sees, or it is the end of a text of whole lines. -/
theorem line_place_le {taken cs : List Char} (h : taken <+: cs) :
    (Lexical.place taken).line ≤ max (splitLines cs).length 1 ∨
      taken = cs ∧ cs.getLast? = some '\n' ∧ (Lexical.place taken).line = max (splitLines cs).length 1 + 1 := by
  obtain ⟨more, rfl⟩ := h
  have hline : (Lexical.place taken).line = taken.count '\n' + 1 := rfl
  have hcount : (taken ++ more).count '\n' = taken.count '\n' + more.count '\n' := List.count_append
  rw [hline]
  rcases length_splitLines (taken ++ more) with ⟨hwhole, hlength⟩ | ⟨-, hlength⟩
  · by_cases hmore : more = []
    · subst hmore
      rw [List.append_nil] at hwhole hlength ⊢
      by_cases htaken : taken = []
      · subst htaken
        exact .inl (by simp)
      · have hfeed := List.count_pos_iff.2 (hwhole.mem htaken)
        exact .inr ⟨rfl, hwhole.getLast?_eq htaken, by omega⟩
    · have hfeed := List.count_pos_iff.2 ((hwhole.suffix (List.suffix_append taken more)).mem hmore)
      exact .inl (by omega)
  · exact .inl (by omega)

end C0Stack.Text
