import C0Stack.Viewer.Basic
import C0Stack.Proofs.Invariance
import C0Stack.Proofs.Source.Lines
import C0Stack.Proofs.Token.Taking

/-!
# The cursor of the viewer

Keys move the cursor over the lines of the text, and it never leaves them (`cursor_on_line`). A fault may lie behind the last line: the
end of a text whose last line has a line feed is the start of a line that the viewer does not show. Of all places of a text only this
one is not on a line of it.
-/

namespace C0Stack

/-! ## The places of faults -/

namespace TokenStream

/-- The place of a token in a stream is that of a token of the text, of its end or of its fault. -/
theorem exists_of_mem_starts {l : Source.Lexed} {p : Position} (h : p ∈ (ofLexed l).starts) :
    (∃ t ∈ l.tokens, t.start = p) ∨ l.ending = .ok p ∨ ∃ e, l.ending = .error e ∧ e.pos = p := by
  obtain ⟨tokens, ending⟩ := l
  induction tokens with
  | nil =>
    cases ending with
    | ok pos => exact .inr (.inl (congrArg _ (List.mem_singleton.1 h).symm))
    | error e => exact .inr (.inr ⟨e, rfl, (List.mem_singleton.1 h).symm⟩)
  | cons t tokens ih =>
    rcases List.mem_cons.1 h with rfl | h
    · exact .inl ⟨t, List.mem_cons_self, rfl⟩
    · rcases ih h with ⟨t', ht', hp⟩ | hending
      · exact .inl ⟨t', List.mem_cons_of_mem t ht', hp⟩
      · exact .inr hending

end TokenStream

/-- The place of a fault is a place of the text. -/
theorem exists_place_of_error {mode : Mode} {text : String} {error : Diagnostic} (h : compile mode (.ofString text) = .error error) :
    ∃ taken, taken <+: text.toList ∧ error.pos = Lexical.place taken := by
  have hmem : error.pos ∈ places ((TokenStream.ofSource (.ofString text)).compile mode) := by
    rw [← compile_eq, h]
    exact List.mem_singleton_self _
  obtain ⟨htoken, hend, hfault⟩ := Source.hasPlace_lex (.ofString text) rfl
  have hplace : (Source.ofString text).HasPlace error.pos := by
    rcases TokenStream.exists_of_mem_starts (TokenStream.mem_starts_of_mem_places hmem) with ⟨t, ht, hp⟩ | hp | ⟨e, he, hp⟩
    · exact hp ▸ htoken t ht
    · exact hend _ hp
    · exact hp ▸ hfault e he
  obtain ⟨taken, hprefix, hpos⟩ := hplace
  exact ⟨taken, hprefix, hpos.trans (Lexical.advanceAll_start taken)⟩

/-- A fault lies on a line of the text, or else at the end of a text with a line feed behind its last line. -/
theorem line_of_error {mode : Mode} {text : String} {error : Diagnostic} (h : compile mode (.ofString text) = .error error) :
    error.pos.line ≤ Text.lineCount text ∨
      text.toList.getLast? = some '\n' ∧ error.pos = Lexical.place text.toList ∧ error.pos.line = Text.lineCount text + 1 := by
  obtain ⟨taken, hprefix, hpos⟩ := exists_place_of_error h
  rw [Text.lineCount, Text.lines, List.length_map, hpos]
  rcases Text.line_place_le hprefix with hle | ⟨rfl, hlast, hline⟩
  · exact .inl hle
  · exact .inr ⟨hlast, rfl, hline⟩

namespace Viewer

/-! ## Events -/

/-- The viewer of a text. -/
def ofText (mode : Mode) (text : String) : Viewer := ofResult text (compile mode (.ofString text))

/-- What happens to the viewer: a key is pressed, or it is drawn on a screen of some size. -/
inductive Event where
  | key (key : Key)
  | draw (width height : Nat)
deriving DecidableEq, Repr

/-- The viewer after the event. It is drawn with the given toolkit. -/
def handle (v : Viewer) (T : Toolkit) : Event → Viewer
  | .key key => v.press key
  | .draw width height => (v.draw width height T).2

/-- The viewer after the events. -/
def run (v : Viewer) (T : Toolkit) (events : List Event) : Viewer := events.foldl (fun v event => v.handle T event) v

/-- The event moves the cursor, even if only to where it is. -/
def moves (v : Viewer) : Event → Bool
  | .key .home | .key .last => true
  | .key .up | .key .down => v.focus == .source
  | .key (.char 'e') => v.error.isSome
  | _ => false

/-- One of the events moves the cursor. -/
def moved (v : Viewer) (T : Toolkit) : List Event → Bool
  | [] => false
  | event :: events => v.moves event || (v.handle T event).moved T events

/-- A move of the cursor leaves the text. -/
theorem moveTo_source (v : Viewer) (line : Nat) : (v.moveTo line).source = v.source := by
  unfold moveTo
  cases v.error <;> rfl

theorem moveTo_error (v : Viewer) (line : Nat) : (v.moveTo line).error = v.error := by
  unfold moveTo
  cases v.error <;> rfl

/-- The cursor goes to the line of the text that is nearest. -/
theorem moveTo_cursor (v : Viewer) (line : Nat) : (v.moveTo line).cursor = min (max line 1) v.lineCount := by
  unfold moveTo
  cases v.error <;> rfl

/-- The key for the fault moves the cursor to its line, or to the nearest one. -/
theorem showError_cursor {v : Viewer} {error : Diagnostic} (h : v.error = some error) :
    v.showError.cursor = min (max error.pos.line 1) v.lineCount := by
  unfold showError
  rw [h]
  exact v.moveTo_cursor error.pos.line

/-- What an event can do: the text and the fault stay, and the cursor stays unless it is moved, and then to the line of the text that is
nearest to some line. -/
structure Transition (v v' : Viewer) (moves : Bool) : Prop where
  source_eq : v'.source = v.source
  error_eq : v'.error = v.error
  cursor_eq : moves = false → v'.cursor = v.cursor
  cursor_near : moves = true → ∃ line, v'.cursor = min (max line 1) v.lineCount

theorem Transition.still {v v' : Viewer} (hsource : v'.source = v.source) (herror : v'.error = v.error)
    (hcursor : v'.cursor = v.cursor) :
    Transition v v' false := ⟨hsource, herror, fun _ => hcursor, nofun⟩

theorem Transition.moveTo (v : Viewer) (line : Nat) : Transition v (v.moveTo line) true :=
  ⟨v.moveTo_source line, v.moveTo_error line, nofun, fun _ => ⟨line, v.moveTo_cursor line⟩⟩

/-- The key for the fault moves the cursor exactly if there is one. -/
theorem Transition.showError (v : Viewer) : Transition v v.showError v.error.isSome := by
  unfold Viewer.showError
  cases herror : v.error with
  | none => exact .still rfl herror.symm rfl
  | some error =>
    obtain ⟨hsource, herror', hcursor, hnear⟩ := Transition.moveTo v error.pos.line
    exact ⟨hsource, herror', hcursor, hnear⟩

/-- What a key with a character does, apart from the one for the fault. -/
theorem press_char (v : Viewer) {c : Char} (hc : c ≠ 'e') : v.press (.char c) = v ∨ v.press (.char c) = { v with quit := true } := by
  by_cases hq : c = 'q' ∨ c = 'Q'
  · rcases hq with rfl | rfl <;> exact .inr rfl
  · refine .inl ?_
    unfold press
    split <;> simp_all

/-- Other keys with a character do not move the cursor. -/
theorem moves_char (v : Viewer) {c : Char} (hc : c ≠ 'e') : v.moves (.key (.char c)) = false := by
  unfold moves
  split <;> simp_all

/-- So they leave all this as it is. -/
theorem Transition.char (v : Viewer) {c : Char} (hc : c ≠ 'e') : Transition v (v.press (.char c)) false := by
  rcases v.press_char hc with hpress | hpress <;> rw [hpress] <;> exact .still rfl rfl rfl

/-- Whatever the toolkit, this is all that an event does. -/
theorem transition_handle (v : Viewer) (T : Toolkit) (event : Event) : Transition v (v.handle T event) (v.moves event) := by
  cases event with
  | draw width height => exact .still rfl rfl rfl
  | key key =>
    cases key with
    | home => exact .moveTo v 1
    | last => exact .moveTo v v.lineCount
    | up =>
      unfold handle press moves
      cases v.focus with
      | source => exact .moveTo v (v.cursor - 1)
      | listing => exact .still rfl rfl rfl
    | down =>
      unfold handle press moves
      cases v.focus with
      | source => exact .moveTo v (v.cursor + 1)
      | listing => exact .still rfl rfl rfl
    | tab | backTab | escape | other => exact .still rfl rfl rfl
    | char c =>
      by_cases hc : c = 'e'
      · subst hc
        exact .showError v
      · rw [v.moves_char hc]
        exact .char v hc

/-- The text stays, so its lines are counted alike. -/
theorem Transition.lineCount_eq {v v' : Viewer} {moves : Bool} (h : Transition v v' moves) : v'.lineCount = v.lineCount := by
  unfold lineCount
  rw [h.source_eq]

/-- A cursor that was moved is on a line of the text. -/
theorem Transition.cursor_mem {v v' : Viewer} (h : Transition v v' true) : 1 ≤ v'.cursor ∧ v'.cursor ≤ v.lineCount := by
  obtain ⟨line, hline⟩ := h.cursor_near rfl
  have hcount : 1 ≤ v.lineCount := Nat.le_max_right _ 1
  omega

/-! ## Runs -/

section

variable {v : Viewer} (T : Toolkit)

/-- Events leave the text. -/
theorem run_source (events : List Event) : (v.run T events).source = v.source := by
  induction events generalizing v with
  | nil => rfl
  | cons event events ih => exact ih.trans (v.transition_handle T event).source_eq

theorem run_error (events : List Event) : (v.run T events).error = v.error := by
  induction events generalizing v with
  | nil => rfl
  | cons event events ih => exact ih.trans (v.transition_handle T event).error_eq

theorem lineCount_run (events : List Event) : (v.run T events).lineCount = v.lineCount := by
  unfold lineCount
  rw [run_source]

/-- The cursor does not go above the first line. -/
theorem one_le_cursor_run (h : 1 ≤ v.cursor) (events : List Event) : 1 ≤ (v.run T events).cursor := by
  induction events generalizing v with
  | nil => exact h
  | cons event events ih =>
    have hstep := v.transition_handle T event
    refine ih (v := v.handle T event) ?_
    cases hmoves : v.moves event with
    | false => rwa [hstep.cursor_eq hmoves]
    | true =>
      rw [hmoves] at hstep
      exact hstep.cursor_mem.1

/-- Once the cursor is on a line of the text, or one of the events moves it, it is on a line of the text from then on. -/
theorem cursor_run_le {events : List Event} (h : v.cursor ≤ v.lineCount ∨ v.moved T events = true) :
    (v.run T events).cursor ≤ v.lineCount := by
  induction events generalizing v with
  | nil => exact h.resolve_right nofun
  | cons event events ih =>
    have hstep := v.transition_handle T event
    rw [← hstep.lineCount_eq]
    refine ih (v := v.handle T event) ?_
    rw [hstep.lineCount_eq]
    cases hmoves : v.moves event with
    | false =>
      rw [hstep.cursor_eq hmoves]
      rwa [moved, hmoves, Bool.false_or] at h
    | true =>
      rw [hmoves] at hstep
      exact .inl hstep.cursor_mem.2

end

/-- The viewer of a text holds the text. -/
theorem ofText_source (mode : Mode) (text : String) : (ofText mode text).source = text := by
  unfold ofText ofResult
  cases compile mode (.ofString text) <;> rfl

/-- With a fault, the cursor starts on its line. -/
theorem ofText_of_error {mode : Mode} {text : String} {error : Diagnostic} (h : compile mode (.ofString text) = .error error) :
    (ofText mode text).error = some error ∧ (ofText mode text).cursor = error.pos.line := by
  unfold ofText
  rw [h]
  exact ⟨rfl, rfl⟩

/-- Without one, it starts on the first. -/
theorem ofText_of_ok {mode : Mode} {text : String} {program : Program} (h : compile mode (.ofString text) = .ok program) :
    (ofText mode text).cursor = 1 := by
  unfold ofText
  rw [h]
  rfl

/-- The viewer of a text counts the lines of that text. -/
theorem lineCount_ofText (mode : Mode) (text : String) : (ofText mode text).lineCount = Text.lineCount text := by
  rw [lineCount, ofText_source]

/-- Either way it does not start above the first line. -/
theorem one_le_cursor_ofText (mode : Mode) (text : String) : 1 ≤ (ofText mode text).cursor := by
  cases h : compile mode (.ofString text) with
  | ok program => rw [ofText_of_ok h]
  | error error =>
    obtain ⟨taken, -, hpos⟩ := exists_place_of_error h
    rw [(ofText_of_error h).2, hpos]
    exact Nat.le_add_left 1 _

end Viewer

/-- Whatever keys are pressed, and however and with whatever toolkit the viewer is drawn, the cursor is on a line of the text, if the
fault is on one or once the cursor was moved. The fault is on a line of the text but where it is the end of a text with a line feed
behind its last line. The key for the fault takes the cursor to its line, or to the last line if it lies behind that. -/
theorem cursor_on_line (mode : Mode) (text : String) (T : Toolkit) :
    (∀ error, compile mode (.ofString text) = .error error → error.pos.line ≤ Text.lineCount text ∨
      text.toList.getLast? = some '\n' ∧ error.pos = Lexical.place text.toList ∧ error.pos.line = Text.lineCount text + 1) ∧
    ∀ events,
      1 ≤ ((Viewer.ofText mode text).run T events).cursor ∧
      ((∀ error, compile mode (.ofString text) = .error error → error.pos.line ≤ Text.lineCount text) ∨
          (Viewer.ofText mode text).moved T events = true →
        ((Viewer.ofText mode text).run T events).cursor ≤ Text.lineCount text) ∧
      ∀ error, compile mode (.ofString text) = .error error →
        (((Viewer.ofText mode text).run T events).press (.char 'e')).cursor = min error.pos.line (Text.lineCount text) := by
  refine ⟨fun error h => line_of_error h, ?_⟩
  intro events
  refine ⟨Viewer.one_le_cursor_run T (Viewer.one_le_cursor_ofText mode text) events, ?_, ?_⟩
  · intro h
    rw [← Viewer.lineCount_ofText mode text] at h ⊢
    refine Viewer.cursor_run_le T (h.imp_left ?_)
    intro hline
    cases hresult : compile mode (.ofString text) with
    | ok program =>
      rw [Viewer.ofText_of_ok hresult]
      exact Nat.le_max_right _ 1
    | error error =>
      rw [(Viewer.ofText_of_error hresult).2]
      exact hline error hresult
  · intro error h
    have hline : 1 ≤ error.pos.line := (Viewer.ofText_of_error h).2 ▸ Viewer.one_le_cursor_ofText mode text
    have herror : ((Viewer.ofText mode text).run T events).error = some error :=
      (Viewer.run_error T events).trans (Viewer.ofText_of_error h).1
    calc (((Viewer.ofText mode text).run T events).press (.char 'e')).cursor
      _ = min (max error.pos.line 1) ((Viewer.ofText mode text).run T events).lineCount := Viewer.showError_cursor herror
      _ = min error.pos.line (Text.lineCount text) := by rw [Nat.max_eq_left hline, Viewer.lineCount_run, Viewer.lineCount_ofText]

/-- The statement breaks off at the end of a text of one line. -/
theorem cursor_behind_last_line :
    Text.lineCount "let a: int\n" = 1 ∧ (Viewer.ofText .statements "let a: int\n").cursor = 2 ∧
      (Viewer.ofText .statements "let a: int\n").error.map (fun error => error.pos.line) = some 2 ∧
      ((Viewer.ofText .statements "let a: int\n").press (.char 'e')).cursor = 1 := by
  decide +kernel

end C0Stack
