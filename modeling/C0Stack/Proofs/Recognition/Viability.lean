import C0Stack.Proofs.Acceptance
import C0Stack.Proofs.Recognition.Faults

/-!
# The first token that cannot come next

The kinds of the tokens of a text, with that of its end, are what the grammar is about. They are derivable if they are those of a
text of the mode, and viable if derivable ones begin with them (`Mode.Derivable`, `Mode.Viable`).

A text that is compiled is derivable. A text that is refused for an unexpected token is viable up to this token, no longer viable
with it, and viable again with each of the kinds that the message names in its place (`unexpected_token_exact`).
-/

namespace C0Stack

open Grammar TokenStream

/-- The tokens of a source are proper ones. -/
theorem Source.proper_lex (s : Source) : Proper s.lex.tokens := by
  intro t ht
  refine ⟨s.wellShaped_of_mem_lex ht, ?_⟩
  fun_induction lex s with
  | case1 s t' s' hs hend => simp at ht
  | case2 s t' s' hs hend rest ih =>
    rcases List.mem_cons.1 ht with rfl | ht
    · exact hend
    · exact ih ht
  | case3 s e s' hs => simp at ht

/-- Assembling fails with what the steps fail with. -/
theorem Assembling.assemble_eq_error {m : Assembling Unit} {d : Diagnostic} :
    m.assemble = .error d ↔ m.run .empty = .error d := by
  unfold assemble
  cases m.run .empty with
  | error error => simp
  | ok r => simp

namespace Mode

/-- The tokens are a text of the mode: a whole program, or a sequence of statements. -/
def Text : Mode → List Token → Prop
  | program => DerivedProgram
  | statements => Derived Statements

/-- The kinds of the tokens of a text of the mode, with that of its end. -/
def Derivable (mode : Mode) (kinds : List Token.Kind) : Prop :=
  ∃ ts, Proper ts ∧ mode.Text ts ∧ kinds = ts.map Token.kind ++ [.endOfFile]

/-- The first kinds of some that are derivable. -/
def Viable (mode : Mode) (kinds : List Token.Kind) : Prop := ∃ more, mode.Derivable (kinds ++ more)

/-- What is left of a stream that is read as a text of the mode. -/
def behind : Mode → TokenStream → TokenStream
  | program => CompilationUnit.behindText
  | statements => fun t => (Stmt.parseAll t).2

/-- The verdict on a text in either mode. -/
theorem verdict (mode : Mode) {t : TokenStream} (ht : t.Readable) : Verdict mode.Text mode.behind t := by
  cases mode with
  | program => exact CompilationUnit.verdict_parse ht
  | statements => exact Stmt.verdict_parseAll ht

/-- A text of the mode is read to its end. -/
theorem behind_of_text {mode : Mode} {ts : List Token} (h : mode.Text ts) (hts : Proper ts) (pos : Position) :
    mode.behind ((done pos).prepend ts) = done pos := by
  cases mode with
  | program => exact CompilationUnit.behindText_of_derived h hts pos
  | statements =>
    obtain ⟨s, hs⟩ := h
    exact congrArg Prod.snd (hs.parseAll_eq pos hts.shaped)

/-- The unexpected token that a text is refused for is the one that breaks the stream. -/
theorem behind_of_compile {mode : Mode} {s : Source} {d : Diagnostic} (h : compile mode s = .error d) (hd : d.cause.Unexpected) :
    mode.behind (ofSource s) = broken d := by
  cases mode with
  | program =>
    refine CompilationUnit.reports_parse (ofSource s) d ?_
    exact CompilationUnit.raises_emit _ _ d (Assembling.assemble_eq_error.1 h) hd
  | statements =>
    refine Stmt.reports_parseAll (ofSource s) d ?_
    exact Stmt.raises_emit _ _ _ d (Assembling.assemble_eq_error.1 h) hd

/-- The kinds of a text of the mode are derivable. -/
theorem derivable_of_text {mode : Mode} {ts : List Token} (h : mode.Text ts) (hts : Proper ts) :
    mode.Derivable (ts.map Token.kind ++ [.endOfFile]) := ⟨ts, hts, h, rfl⟩

/-- The kinds of what can be completed are viable. -/
theorem viable_of_completable {mode : Mode} {ts : List Token} (h : Completable mode.Text ts) (hts : Proper ts) :
    mode.Viable (ts.map Token.kind) := by
  obtain ⟨us, hus, h⟩ := h
  exact ⟨us.map Token.kind ++ [.endOfFile], ts ++ us, proper_append.2 ⟨hts, hus⟩, h, by simp⟩

/-- What begins like tokens followed by one of the kind is such a sequence, or these tokens and their end. -/
theorem exists_resembling {ts us : List Token} {rest : TokenStream} (hus : Proper us)
    {kind : Token.Kind} (hkind : rest.nextKind? = some kind) {more : List Token.Kind}
    (h : ts.map Token.kind ++ [kind] ++ more = us.map Token.kind ++ [.endOfFile]) (pos : Position) :
    ∃ ts' rest', (done pos).prepend us = rest'.prepend ts' ∧ Alike ts ts' ∧ rest.Resembles rest' := by
  rw [List.append_assoc, List.singleton_append] at h
  rcases List.append_eq_append_iff.1 h with ⟨as, has, hmore⟩ | ⟨bs, hbs, hmore⟩
  · obtain ⟨ts', vs, rfl, hts', hvs⟩ := List.map_eq_append_iff.1 has
    obtain ⟨hproper, hproper'⟩ := proper_append.1 hus
    refine ⟨ts', (done pos).prepend vs, prepend_append _ _ _, ⟨hproper, hts'⟩, readable_prepend.2 ⟨hproper', trivial⟩, ?_⟩
    cases vs with
    | nil =>
      subst hvs
      rw [hkind, (List.cons.inj hmore).1]
      rfl
    | cons v vs =>
      subst hvs
      rw [hkind, (List.cons.inj hmore).1]
      rfl
  · obtain ⟨rfl, hmore⟩ : bs = [] ∧ [.endOfFile] = kind :: more := by
      cases bs with
      | nil => exact ⟨rfl, hmore⟩
      | cons b bs => simp at hmore
    rw [List.append_nil] at hbs
    refine ⟨us, done pos, rfl, ⟨hus, hbs.symm⟩, trivial, ?_⟩
    rw [hkind, ← (List.cons.inj hmore).1]
    rfl

/-- With the token that the reader stops at, the tokens are no longer viable. -/
theorem not_viable {mode : Mode} {ts : List Token} {rest : TokenStream} {expected : List Token.Kind}
    (hstop : ∀ ts' rest', Alike ts ts' → rest.Resembles rest' → mode.behind (rest'.prepend ts') = broken (rest'.unexpected expected))
    {kind : Token.Kind} (hkind : rest.nextKind? = some kind) : ¬ mode.Viable (ts.map Token.kind ++ [kind]) := by
  rintro ⟨more, us, hus, htext, heq⟩
  obtain ⟨ts', rest', hstream, hts', hrest'⟩ := exists_resembling hus hkind heq .start
  have hdone := behind_of_text htext hus .start
  rw [hstream, hstop ts' rest' hts' hrest'] at hdone
  exact nomatch hdone

end Mode

/-- In a text that is cut into tokens, the compiler recognises exactly the grammar of the mode: what it compiles is derivable, and
where it refuses the text for an unexpected token, the tokens before are viable, with this token they are not, and with each of the
expected kinds they are. -/
theorem unexpected_token_exact (mode : Mode) {s : Source} {tokens : List Token} (h : s.tokenize = .ok tokens) :
    (∀ p, compile mode s = .ok p → mode.Derivable (tokens.map Token.kind)) ∧
      ∀ expected found pos, compile mode s = .error ⟨.unexpected expected found, pos⟩ →
        ∃ k token, tokens[k]? = some token ∧ token.kind = found ∧ token.start = pos ∧
          mode.Viable ((tokens.take k).map Token.kind) ∧ ¬ mode.Viable ((tokens.take (k + 1)).map Token.kind) ∧
          ∀ kind ∈ expected, mode.Viable ((tokens.take k).map Token.kind ++ [kind]) := by
  obtain ⟨stop, hend, rfl⟩ := Source.tokenize_eq_ok.1 h
  have hproper := s.proper_lex
  have hsource : ofSource s = (done stop).prepend s.lex.tokens := ofSource_eq.2 ⟨hend, rfl⟩
  constructor
  · intro p hp
    have htext : mode.Text s.lex.tokens := by
      cases mode with
      | program =>
        obtain ⟨pos, u, -, -, hu, -⟩ := compile_program_eq_ok.1 hp
        exact ⟨pos, u, hu⟩
      | statements =>
        obtain ⟨-, S, -, -, hS, -⟩ := compile_statements_eq_ok.1 hp
        exact ⟨S, hS⟩
    rw [List.map_append]
    exact Mode.derivable_of_text htext hproper
  · intro expected found pos herror
    have hbroken := Mode.behind_of_compile herror trivial
    rw [hsource] at hbroken
    cases mode.verdict (t := (done stop).prepend s.lex.tokens) (readable_prepend.2 ⟨hproper, trivial⟩) with
    | accepts ts pos' _ _ hdone => exact nomatch hdone.symm.trans hbroken
    | misplaced hmisplaced => exact nomatch hmisplaced.symm.trans hbroken
    | refuses ts rest expected' hrest hviable hstop hexpected hends =>
      obtain ⟨us, rfl, htokens⟩ := eq_prepend_done hrest
      rw [htokens] at hproper ⊢
      obtain ⟨hts, hus⟩ := proper_append.1 hproper
      have hreadable : ((done stop).prepend us).Readable := readable_prepend.2 ⟨hus, trivial⟩
      -- the token that comes next, which is the end of the text if no other is left
      obtain ⟨next, us', hnext, hhead⟩ : ∃ next us', us ++ [Token.endAt stop] = next :: us' ∧
          ((done stop).prepend us).head = .ok next := by
        cases us with
        | nil => exact ⟨_, _, rfl, rfl⟩
        | cons next us => exact ⟨_, _, rfl, rfl⟩
      have hkind : ((done stop).prepend us).nextKind? = some next.kind := by
        cases us with
        | nil =>
          cases hhead
          rfl
        | cons next' us =>
          cases hhead
          rfl
      have hd := hstop ts _ (.refl hts) (.refl hreadable)
      rw [← hrest, hbroken, unexpected, hhead] at hd
      obtain ⟨⟨rfl, rfl⟩, rfl⟩ : (expected = expected' ∧ found = next.kind) ∧ pos = next.start := by simpa using hd
      rw [List.append_assoc, hnext]
      refine ⟨ts.length, next, by simp, rfl, rfl, ?_, ?_, ?_⟩
      · rw [List.take_left]
        exact Mode.viable_of_completable hviable hts
      · have htake : (ts ++ next :: us').take (ts.length + 1) = ts ++ [next] := List.take_length_add_append 1
        rw [htake, List.map_append]
        exact Mode.not_viable hstop hkind
      · intro kind hmem
        rw [List.take_left]
        by_cases hkindEnd : kind = .endOfFile
        · subst hkindEnd
          exact ⟨[], by simpa using Mode.derivable_of_text (hends hmem) hts⟩
        · have hsample := Token.proper_sample hkindEnd
          have hcompletable := hexpected (.sample kind) hsample hmem
          have hviable := Mode.viable_of_completable hcompletable (proper_append.2 ⟨hts, proper_cons.2 ⟨hsample, .nil⟩⟩)
          simpa using hviable

/-- A declaration without its colon is refused at the type, and a colon could have come in its place. -/
theorem unexpected_token_declaration : ∃ tokens : List Token, ∃ k token,
    (Source.ofString "let x int;").tokenize = .ok tokens ∧ tokens[k]? = some token ∧ token.kind = .name ∧ token.start = ⟨1, 7⟩ ∧
      Mode.program.Viable ((tokens.take k).map Token.kind) ∧ ¬ Mode.program.Viable ((tokens.take (k + 1)).map Token.kind) ∧
      Mode.program.Viable ((tokens.take k).map Token.kind ++ [.colon]) := by
  obtain ⟨tokens, htokens⟩ := Assembling.exists_eq_ok (x := (Source.ofString "let x int;").tokenize) (by decide +kernel)
  have herror : compile .program (.ofString "let x int;") = .error ⟨.unexpected [.colon] .name, ⟨1, 7⟩⟩ :=
    Assembling.eq_error_of_fault? (by decide +kernel)
  obtain ⟨k, token, htoken, hkind, hstart, hviable, hnot, hexpected⟩ := (unexpected_token_exact .program htokens).2 _ _ _ herror
  exact ⟨tokens, k, token, htokens, htoken, hkind, hstart, hviable, hnot, hexpected .colon List.mem_cons_self⟩

end C0Stack
