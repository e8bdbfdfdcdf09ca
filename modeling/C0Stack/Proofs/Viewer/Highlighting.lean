import C0Stack.Viewer.SourcePane

/-!
# Highlighting loses nothing

Whatever a line holds, its spans in order are the line, and none of them is empty (`highlighting_conserves`). The spans can also be found
by a loop that goes over the line by index and keeps the word it has begun. Behind a backslash the loop jumps, and it may land behind the
end of the line. `Highlight.Scan` is that loop with every access checked, and no check ever fails.
-/

namespace C0Stack

/-- The character is a quote. -/
abbrev Text.IsQuote (c : Char) : Prop := c = '"' ∨ c = '\''

theorem Text.IsQuote.ne_backslash {c : Char} (h : IsQuote c) : c ≠ '\\' := by
  rcases h with rfl | rfl <;> decide

/-- The characters of the line. -/
def TextLine.chars (line : TextLine) : List Char := line.flatMap Span.chars

theorem TextLine.chars_cons (span : Span) (line : TextLine) : TextLine.chars (span :: line) = span.chars ++ line.chars := rfl

/-- The characters of two lines in a row. -/
theorem TextLine.chars_append (line line' : TextLine) : TextLine.chars (line ++ line') = line.chars ++ line'.chars :=
  List.flatMap_append

namespace Highlight

/-! ## The spans of a line -/

theorem chars_spanOf (word : List Char) (style : Style) : (spanOf word style).chars = word := by
  cases word with
  | nil => rfl
  | cons c word => exact List.append_nil (c :: word)

/-- The spans of a line, behind the word that was begun, hold the word and the line. -/
theorem chars_spans (word cs : List Char) : (spans word cs).chars = word ++ cs := by
  fun_induction spans word cs with
  | case1 word => rw [chars_spanOf, List.append_nil]
  | case2 word c rest _ ih =>
    rw [TextLine.chars_append, TextLine.chars_cons, chars_spanOf, ih, List.nil_append, List.cons_append, splitString_append]
  | case3 word c rest _ _ ih => rw [ih, List.append_assoc, List.singleton_append]
  | case4 word c rest _ _ ih =>
    rw [TextLine.chars_append, TextLine.chars_cons, chars_spanOf, ih, List.nil_append, List.singleton_append]

/-- A span of a word is not empty. -/
theorem ne_nil_of_mem_spanOf {word : List Char} {style : Style} : ∀ span ∈ spanOf word style, span.chars ≠ [] := by
  intro span hspan
  cases word with
  | nil => cases hspan
  | cons c word =>
    obtain rfl := List.mem_singleton.1 hspan
    exact List.cons_ne_nil c word

/-- No span of a line is empty. -/
theorem ne_nil_of_mem_spans (word cs : List Char) : ∀ span ∈ spans word cs, span.chars ≠ [] := by
  fun_induction spans word cs with
  | case1 word => exact ne_nil_of_mem_spanOf
  | case2 word c rest _ ih =>
    exact List.forall_mem_append.2 ⟨ne_nil_of_mem_spanOf, List.forall_mem_cons.2 ⟨List.cons_ne_nil _ _, ih⟩⟩
  | case3 word c rest _ _ ih => exact ih
  | case4 word c rest _ _ ih =>
    exact List.forall_mem_append.2 ⟨ne_nil_of_mem_spanOf, List.forall_mem_cons.2 ⟨List.cons_ne_nil _ _, ih⟩⟩

/-! ## By index -/

/-- The characters from the index `first` up to `stop`, which must be in order and not behind the end. -/
def slice? (cs : List Char) (first stop : Nat) : Option (List Char) :=
  if first ≤ stop ∧ stop ≤ cs.length then some ((cs.take stop).drop first) else none

/-- The index of the quote that closes a string, from the index `stop` on. Without one it is some index behind the line. -/
def seek? (cs : List Char) (quote : Char) (stop : Nat) : Option Nat :=
  if stop < cs.length then do
    let c ← cs[stop]?
    if c = quote then some stop else seek? cs quote (if c = '\\' then stop + 2 else stop + 1)
  else some stop
termination_by cs.length - stop
decreasing_by split <;> omega

/-- A loop over a line: the spans it has found, the word it has begun, and the index of the next character. -/
structure Scan where
  found : TextLine
  word : List Char
  index : Nat

/-- One turn of the loop. It fails if it reads what is not there. -/
def Scan.step? (cs : List Char) (s : Scan) : Option Scan := do
  let c ← cs[s.index]?
  if c = '"' ∨ c = '\'' then
    let stop := min ((← seek? cs c (s.index + 1)) + 1) cs.length
    let text ← slice? cs s.index stop
    return ⟨s.found ++ spanOf s.word .plain ++ [⟨text, .ofFg Theme.string⟩], [], stop⟩
  else if isWordPart c then return ⟨s.found, s.word ++ [c], s.index + 1⟩
  else return ⟨s.found ++ spanOf s.word (wordStyle s.word (c == '(')) ++ [⟨[c], symbolStyle c⟩], [], s.index + 1⟩

section

variable {quote : Char}

/-- Behind the line no quote is looked for. -/
theorem seek?_end (cs : List Char) {stop : Nat} (h : cs.length ≤ stop) : seek? cs quote stop = some stop := by
  rw [seek?, if_neg (Nat.not_lt.2 h)]

/-- A look at the next character. -/
theorem seek?_cons (before : List Char) (c : Char) (rest : List Char) :
    seek? (before ++ c :: rest) quote before.length =
      if c = quote then some before.length
      else seek? (before ++ c :: rest) quote (if c = '\\' then before.length + 2 else before.length + 1) := by
  have hlt : before.length < (before ++ c :: rest).length := by
    rw [List.length_append, List.length_cons]
    omega
  rw [seek?, if_pos hlt, List.getElem?_append_right (Nat.le_refl _), Nat.sub_self, List.getElem?_cons_zero, Option.bind_eq_bind,
    Option.bind_some]

/-- The lengths of three pieces, taken together in two ways. -/
theorem length_add_length (before part text : List Char) :
    (before ++ part).length + text.length = before.length + (part ++ text).length := by
  rw [List.length_append, List.length_append, Nat.add_assoc]

/-- The loop ends a string where `splitString` ends it. -/
theorem seek?_append (hquote : quote ≠ '\\') (before rest : List Char) :
    ∃ stop, seek? (before ++ rest) quote before.length = some stop ∧
      min (stop + 1) (before ++ rest).length = before.length + (splitString quote rest).1.length := by
  fun_induction splitString quote rest generalizing before with
  | case1 => exact ⟨before.length, seek?_end _ (by simp), by simp⟩
  | case2 c rest ih =>
    obtain ⟨stop, hseek, hstop⟩ := ih (before ++ ['\\', c])
    rw [List.append_assoc, List.cons_append, List.cons_append, List.nil_append] at hseek hstop
    refine ⟨stop, ?_, ?_⟩
    · rw [seek?_cons, if_neg hquote.symm, if_pos rfl]
      rwa [List.length_append] at hseek
    · exact hstop.trans (length_add_length before ['\\', c] _)
  | case3 rest =>
    refine ⟨before.length, by rw [seek?_cons, if_pos rfl], ?_⟩
    simp
  | case4 c rest hpair hc ih =>
    by_cases hlast : c = '\\'
    · -- a backslash that ends the line: the loop jumps over the end
      obtain rfl : rest = [] := by
        cases rest with
        | nil => rfl
        | cons d rest => exact absurd rfl (hpair d rest hlast)
      refine ⟨before.length + 2, ?_, ?_⟩
      · rw [seek?_cons, if_neg hc, if_pos hlast]
        exact seek?_end _ (by simp)
      · simp [splitString]
    · obtain ⟨stop, hseek, hstop⟩ := ih (before ++ [c])
      rw [List.append_assoc, List.singleton_append] at hseek hstop
      refine ⟨stop, ?_, ?_⟩
      · rw [seek?_cons, if_neg hc, if_neg hlast]
        rwa [List.length_append] at hseek
      · exact hstop.trans (length_add_length before [c] _)

end

/-- The characters between two indices are the piece between them. -/
theorem slice?_append (before part rest : List Char) :
    slice? (before ++ (part ++ rest)) before.length (before.length + part.length) = some part := by
  rw [slice?, if_pos ⟨Nat.le_add_right _ _, by simp only [List.length_append]; omega⟩, List.take_length_add_append, List.drop_left,
    List.take_left]

namespace Scan

section

variable (found : TextLine) (word before : List Char) {c : Char} (rest : List Char)

/-- At a quote the word ends, and the string is found as a whole. -/
theorem step?_quote (hc : Text.IsQuote c) :
    step? (before ++ c :: rest) ⟨found, word, before.length⟩ =
      some ⟨found ++ spanOf word .plain ++ [⟨c :: (splitString c rest).1, .ofFg Theme.string⟩], [],
        before.length + (c :: (splitString c rest).1).length⟩ := by
  obtain ⟨stop, hseek, hstop⟩ := seek?_append hc.ne_backslash (before ++ [c]) rest
  rw [List.append_assoc, List.singleton_append] at hseek hstop
  have hend : min (stop + 1) (before ++ c :: rest).length = before.length + (c :: (splitString c rest).1).length :=
    hstop.trans (length_add_length before [c] _)
  have hslice := slice?_append before (c :: (splitString c rest).1) (splitString c rest).2
  rw [List.cons_append, splitString_append] at hslice
  have hnext : seek? (before ++ c :: rest) c (before.length + 1) = some stop := by rwa [List.length_append] at hseek
  simp only [step?, List.getElem?_append_right (Nat.le_refl _), Nat.sub_self, List.getElem?_cons_zero, Option.bind_eq_bind,
    Option.bind_some, if_pos hc, hnext, hend, hslice]
  rfl

/-- A part of a word goes on with it. -/
theorem step?_word (hc : ¬ Text.IsQuote c) (hword : isWordPart c = true) :
    step? (before ++ c :: rest) ⟨found, word, before.length⟩ = some ⟨found, word ++ [c], before.length + 1⟩ := by
  simp [step?, hc, hword]

/-- Another character ends the word, and is a span of its own. -/
theorem step?_symbol (hc : ¬ Text.IsQuote c) (hword : isWordPart c = false) :
    step? (before ++ c :: rest) ⟨found, word, before.length⟩ =
      some ⟨found ++ spanOf word (wordStyle word (c == '(')) ++ [⟨[c], symbolStyle c⟩], [], before.length + 1⟩ := by
  simp [step?, hc, hword]

end

/-- Every turn moves on. -/
theorem index_lt_of_step? {cs : List Char} {s s' : Scan} (h : s.step? cs = some s') : s.index < s'.index := by
  obtain ⟨found, word, index⟩ := s
  by_cases hlt : index < cs.length
  · obtain ⟨before, c, rest, rfl, rfl⟩ : ∃ before c rest, cs = before ++ c :: rest ∧ index = before.length :=
      ⟨cs.take index, cs[index], cs.drop (index + 1), by rw [← List.drop_eq_getElem_cons hlt, List.take_append_drop],
        (List.length_take_of_le (Nat.le_of_lt hlt)).symm⟩
    by_cases hc : Text.IsQuote c
    · rw [step?_quote found word before rest hc] at h
      cases h
      exact Nat.lt_add_of_pos_right (Nat.zero_lt_succ _)
    · cases hword : isWordPart c with
      | true =>
        rw [step?_word found word before rest hc hword] at h
        cases h
        exact Nat.lt_succ_self _
      | false =>
        rw [step?_symbol found word before rest hc hword] at h
        cases h
        exact Nat.lt_succ_self _
  · rw [step?, List.getElem?_eq_none (Nat.not_lt.1 hlt)] at h
    cases h

/-- The loop: at the end of the line it adds the word it has begun. -/
def run? (cs : List Char) (s : Scan) : Option TextLine :=
  if s.index < cs.length then
    match _h : s.step? cs with
    | some s' => run? cs s'
    | none => none
  else some (s.found ++ spanOf s.word (wordStyle s.word false))
termination_by cs.length - s.index
decreasing_by
  have := index_lt_of_step? _h
  omega

/-- One turn, and then the rest of the loop. -/
theorem run?_of_step? {cs : List Char} {s s' : Scan} (hlt : s.index < cs.length) (h : s.step? cs = some s') :
    s.run? cs = s'.run? cs := by
  rw [run?, if_pos hlt]
  split
  · rename_i s'' h'
    rw [h] at h'
    cases h'
    rfl
  · rename_i h'
    rw [h] at h'
    cases h'

/-- From wherever the loop is, it finds the spans of the rest of the line. -/
theorem run?_append (found : TextLine) (word before rest : List Char) :
    run? (before ++ rest) ⟨found, word, before.length⟩ = some (found ++ spans word rest) := by
  fun_induction spans word rest generalizing found before with
  | case1 word => rw [run?, if_neg (by simp)]
  | case2 word c rest hc ih =>
    have hrun := ih (found ++ spanOf word .plain ++ [⟨c :: (splitString c rest).1, .ofFg Theme.string⟩])
      (before ++ c :: (splitString c rest).1)
    rw [List.append_assoc before, List.cons_append, splitString_append, List.length_append] at hrun
    rw [run?_of_step? (by simp) (step?_quote found word before rest hc), hrun, List.append_assoc, List.append_assoc,
      List.singleton_append]
  | case3 word c rest hc hword ih =>
    have hrun := ih found (before ++ [c])
    rw [List.append_assoc, List.singleton_append, List.length_append, List.length_singleton] at hrun
    rw [run?_of_step? (by simp) (step?_word found word before rest hc hword), hrun]
  | case4 word c rest hc hword ih =>
    have hrun := ih (found ++ spanOf word (wordStyle word (c == '(')) ++ [⟨[c], symbolStyle c⟩]) (before ++ [c])
    rw [List.append_assoc before, List.singleton_append, List.length_append, List.length_singleton] at hrun
    rw [run?_of_step? (by simp) (step?_symbol found word before rest hc (Bool.eq_false_iff.2 hword)), hrun, List.append_assoc,
      List.append_assoc, List.singleton_append]

end Scan

/-- The spans of a line, found by index. -/
def scanned? (cs : List Char) : Option TextLine := Scan.run? cs ⟨[], [], 0⟩

end Highlight

theorem TextLine.chars_map_style (line : TextLine) (f : Style → Style) :
    TextLine.chars (line.map fun span => { span with style := f span.style }) = line.chars := by
  simp only [TextLine.chars, List.flatMap_map]

/-- The text of a row of the source pane. -/
theorem SourcePane.chars_row (cursor : Nat) (errorLine : Option Nat) (number : Nat) (text : String) :
    (row cursor errorLine number text).chars =
      List.replicate (4 - (Nat.toDigits 10 number).length) ' ' ++ Nat.toDigits 10 number ++ ' ' :: text.toList := by
  have hfield : (Text.alignRight 4 (toString number) ++ " ").toList =
      List.replicate (4 - (Nat.toDigits 10 number).length) ' ' ++ Nat.toDigits 10 number ++ [' '] := by
    rw [String.toList_append, Text.toList_alignRight, Text.toList_toString]
    rfl
  simp only [row, TextLine.chars_cons, TextLine.chars_map_style, Highlight.line, Highlight.chars_spans, List.nil_append,
    Span.ofString, hfield, List.append_assoc, List.singleton_append]

/-- Highlighting a line loses nothing of it, whether it can be cut into tokens or not: no span is empty, and the spans in order are the
line. The loop over the line by index reads only what is there, comes to an end, and finds these spans. So a row of the source pane is the
number of the line in digits, behind spaces where it has fewer than four, and then a space and the line. -/
theorem highlighting_conserves (text : String) :
    Highlight.scanned? text.toList = some (Highlight.line text) ∧
      (∀ span ∈ Highlight.line text, span.chars ≠ []) ∧
      (Highlight.line text).chars = text.toList ∧
      ∀ cursor errorLine number,
        (SourcePane.row cursor errorLine number text).chars =
          List.replicate (4 - (Nat.toDigits 10 number).length) ' ' ++ Nat.toDigits 10 number ++ ' ' :: text.toList := by
  refine ⟨Highlight.Scan.run?_append [] [] [] text.toList, Highlight.ne_nil_of_mem_spans [] text.toList,
    Highlight.chars_spans [] text.toList, ?_⟩
  intro cursor errorLine number
  exact SourcePane.chars_row cursor errorLine number text

end C0Stack
