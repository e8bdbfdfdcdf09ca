import C0Stack.Proofs.CommandLine.Arguments
import C0Stack.Proofs.Recognition.Viability
import C0Stack.Proofs.Source.Undecodable

/-!
# What the command line prints

A run that does not go on in the viewer prints the tokens or the listing of the file, or nothing. It prints them exactly if the arguments
are accepted, the file is there, and its bytes can be cut into tokens or compiled. This is possible only for the bytes of a text, and is
then done as with the text in memory (`command_line_agrees`).
-/

namespace C0Stack

/-! ## Bytes and texts -/

/-- A source that can be compiled can be cut into tokens to its end. -/
theorem exists_tokenize_of_compile {mode : Mode} {s : Source} {p : Program} (h : compile mode s = .ok p) :
    ∃ ts, s.tokenize = .ok ts := by
  cases mode with
  | program =>
    obtain ⟨pos, -, -, hend, -⟩ := compile_program_eq_ok.1 h
    exact ⟨_, Source.tokenize_eq_ok.2 ⟨pos, hend, rfl⟩⟩
  | statements =>
    obtain ⟨pos, -, -, hend, -⟩ := compile_statements_eq_ok.1 h
    exact ⟨_, Source.tokenize_eq_ok.2 ⟨pos, hend, rfl⟩⟩

/-! ## The lines for tokens -/

namespace CommandLine

/-- The line for a token: the number of the line where it starts, behind spaces where it has fewer than four digits, a colon, the number of
the column, before spaces likewise, a space, what the token is, and a line feed. -/
def tokenLine (t : Token) : List Char :=
  let line := Nat.toDigits 10 t.start.line
  let column := Nat.toDigits 10 t.start.column
  List.replicate (4 - line.length) ' ' ++ line ++ ':' :: column ++ List.replicate (4 - column.length) ' ' ++
    ' ' :: t.describe.toList ++ ['\n']

/-- The output has one line for each of the tokens, in their order, and nothing else. -/
inductive Lists : List Token → List Char → Prop
  | nil : Lists [] []
  | cons {t : Token} {ts : List Token} {out : List Char} : Lists ts out → Lists (t :: ts) (tokenLine t ++ out)

/-- A row with its line end is the line for the token. -/
theorem toList_tokenRow (t : Token) : (tokenRow t ++ "\n").toList = tokenLine t := by
  simp only [tokenRow, tokenLine, String.toList_append, Text.toList_alignRight, Text.toList_alignLeft, Text.toList_toString,
    List.append_assoc]
  rfl

/-- The rows of tokens, each with its line end, are such an output. -/
theorem lists_unlines (ts : List Token) : Lists ts (unlines (ts.map tokenRow)).toList := by
  induction ts with
  | nil => exact .nil
  | cons t ts ih =>
    have hcons : (unlines ((t :: ts).map tokenRow)).toList = tokenLine t ++ (unlines (ts.map tokenRow)).toList := by
      rw [← toList_tokenRow, ← String.toList_append, unlines, List.map_cons, List.map_cons, String.join_cons, unlines]
    rw [hcons]
    exact ih.cons

end CommandLine

/-! ## What the options select -/

namespace Options

/-- What the options have printed of a source: its tokens, or the program that it is compiled to. -/
inductive Yields (o : Options) (s : Source) : String → Prop
  | tokens {ts : List Token} {out : String} : o.tokens = true → s.tokenize = .ok ts → CommandLine.Lists ts out.toList →
      Yields o s out
  | statements {p : Program} : o.tokens = false → o.statements = true → compile .statements s = .ok p → Yields o s p.listing
  | program {p : Program} : o.tokens = false → o.statements = false → compile .program s = .ok p → Yields o s p.listing

section

variable {o : Options} {s : Source} {out : String}

/-- With the option for tokens it is one line for each token. -/
theorem yields_iff_of_tokens (h : o.tokens = true) :
    o.Yields s out ↔ ∃ ts, s.tokenize = .ok ts ∧ CommandLine.Lists ts out.toList := by
  constructor
  · rintro (⟨-, hts, hlists⟩ | ⟨htokens, -, -⟩ | ⟨htokens, -, -⟩)
    · exact ⟨_, hts, hlists⟩
    · rw [h] at htokens
      cases htokens
    · rw [h] at htokens
      cases htokens
  · rintro ⟨ts, hts, hlists⟩
    exact .tokens h hts hlists

/-- Without it, it is the listing of the program that the mode selects. -/
theorem yields_iff_of_not_tokens (h : o.tokens = false) : o.Yields s out ↔ ∃ p, compile o.mode s = .ok p ∧ out = p.listing := by
  unfold mode
  constructor
  · rintro (⟨htokens, -, -⟩ | ⟨-, hstatements, hp⟩ | ⟨-, hstatements, hp⟩)
    · rw [h] at htokens
      cases htokens
    · rw [hstatements]
      exact ⟨_, hp, rfl⟩
    · rw [hstatements]
      exact ⟨_, hp, rfl⟩
  · rintro ⟨p, hp, rfl⟩
    cases hstatements : o.statements with
    | true =>
      rw [hstatements] at hp
      exact .statements h hstatements hp
    | false =>
      rw [hstatements] at hp
      exact .program h hstatements hp

/-- What is printed has been read to the end. -/
theorem Yields.exists_tokenize (h : o.Yields s out) : ∃ ts, s.tokenize = .ok ts := by
  cases h with
  | tokens _ hts _ => exact ⟨_, hts⟩
  | statements _ _ hp => exact exists_tokenize_of_compile hp
  | program _ _ hp => exact exists_tokenize_of_compile hp

/-- Only the bytes of a text have anything printed of them. -/
theorem Yields.exists_text {bytes : List UInt8} (h : o.Yields (.ofBytes bytes) out) :
    ∃ text : String, bytes = text.toUTF8.data.toList := by
  obtain ⟨ts, hts⟩ := h.exists_tokenize
  exact Source.exists_text_of_tokenize hts

/-- The same is printed of a text and of its bytes. -/
theorem yields_ofBytes {text : String} : o.Yields (.ofBytes text.toUTF8.data.toList) out ↔ o.Yields (.ofString text) out := by
  have hahead := Source.ahead_ofBytes text
  cases htokens : o.tokens with
  | true =>
    rw [yields_iff_of_tokens htokens, yields_iff_of_tokens htokens, Source.agrees_token_ahead.tokenize_eq hahead]
  | false =>
    rw [yields_iff_of_not_tokens htokens, yields_iff_of_not_tokens htokens, Source.agrees_token_ahead.compile_eq hahead]

end

end Options

/-! ## Runs -/

/-- The report that a run ends with, if it does not go on in the viewer. -/
def Outcome.report? : Outcome → Option Report
  | report r => some r
  | browse _ _ => none

/-- There is such a report exactly if the run ends with it. -/
theorem Outcome.report?_eq_some {o : Outcome} {r : Report} : o.report? = some r ↔ o = .report r := by
  cases o <;> simp [report?]

/-- A report of success with an output that there is to print, or of failure without any, where there is none. -/
def Report.Settles (r : Report) (prints : String → Prop) : Prop :=
  (r.code = 0 ∧ prints r.stdout) ∨ (r.code = 1 ∧ r.stdout = "" ∧ ∀ out, ¬ prints out)

namespace CommandLine

/-- The arguments are accepted, the file is there, and this is what the options have printed of it. -/
def Prints (args : List String) (files : String → Option (List UInt8)) (out : String) : Prop :=
  ∃ o bytes, Options.parse args = .ok o ∧ files o.path = some bytes ∧ o.Yields (.ofBytes bytes) out

/-- The arguments ask for the viewer, and the file is there and holds a text. -/
def Browses (args : List String) (files : String → Option (List UInt8)) : Prop :=
  ∃ o, ∃ text : String, Options.parse args = .ok o ∧ o.tokens = false ∧ o.view = true ∧
    files o.path = some text.toUTF8.data.toList

section

variable {o : Options} {bytes : List UInt8}

theorem settles_failure (stderr : String) {prints : String → Prop} (h : ∀ out, ¬ prints out) :
    ∃ r, failure stderr = .report r ∧ r.Settles prints :=
  ⟨_, rfl, .inr ⟨rfl, rfl, h⟩⟩

/-- Printing tokens settles what is printed. -/
theorem settles_printTokens (htokens : o.tokens = true) :
    ∃ r, printTokens o.path bytes = .report r ∧ r.Settles (o.Yields (.ofBytes bytes)) := by
  unfold printTokens
  cases hts : (Source.ofBytes bytes).tokenize with
  | ok ts => exact ⟨_, rfl, .inl ⟨rfl, .tokens htokens hts (lists_unlines ts)⟩⟩
  | error e =>
    refine settles_failure _ fun out hout => ?_
    obtain ⟨ts, hts', -⟩ := (Options.yields_iff_of_tokens htokens).1 hout
    rw [hts] at hts'
    cases hts'

/-- Printing a listing settles what is printed. -/
theorem settles_printListing (htokens : o.tokens = false) :
    ∃ r, printListing o.path o.mode bytes = .report r ∧ r.Settles (o.Yields (.ofBytes bytes)) := by
  unfold printListing
  cases hp : compile o.mode (.ofBytes bytes) with
  | ok p => exact ⟨_, rfl, .inl ⟨rfl, (Options.yields_iff_of_not_tokens htokens).2 ⟨p, hp, rfl⟩⟩⟩
  | error e =>
    refine settles_failure _ fun out hout => ?_
    obtain ⟨p, hp', -⟩ := (Options.yields_iff_of_not_tokens htokens).1 hout
    rw [hp] at hp'
    cases hp'

/-- The viewer opens with every text, whether or not it can be compiled. -/
theorem openViewer_text (path : String) (mode : Mode) (text : String) :
    ∃ stderr v, openViewer path mode text.toUTF8.data.toList = .browse stderr v := by
  unfold openViewer
  rw [← Source.encode_toList, Source.decode?_encode]
  dsimp only
  cases compile mode (.ofString (String.ofList text.toList)) with
  | ok p => exact ⟨_, _, rfl⟩
  | error e => exact ⟨_, _, rfl⟩

/-- Bytes that are not those of a text are refused by the viewer, and would be by the other ways to read them. -/
theorem settles_openViewer (h : ∀ text : String, bytes ≠ text.toUTF8.data.toList) :
    ∃ r, openViewer o.path o.mode bytes = .report r ∧ r.Settles (o.Yields (.ofBytes bytes)) := by
  unfold openViewer
  rw [Source.decode?_eq_none_iff.2 h]
  refine settles_failure _ fun out hout => ?_
  obtain ⟨text, htext⟩ := hout.exists_text
  exact h text htext

/-- A run on a file that is there. -/
theorem execute_cases (program : String) (o : Options) (bytes : List UInt8) :
    (∃ text : String, o.tokens = false ∧ o.view = true ∧ bytes = text.toUTF8.data.toList ∧
      ∃ stderr v, execute program o (some bytes) = .browse stderr v) ∨
    (o.tokens = false → o.view = true → ∀ text : String, bytes ≠ text.toUTF8.data.toList) ∧
      ∃ r, execute program o (some bytes) = .report r ∧ r.Settles (o.Yields (.ofBytes bytes)) := by
  unfold execute
  dsimp only
  cases htokens : o.tokens with
  | true =>
    rw [if_pos rfl]
    refine .inr ⟨?_, settles_printTokens htokens⟩
    rintro ⟨⟩
  | false =>
    rw [if_neg Bool.false_ne_true]
    cases hview : o.view with
    | false =>
      rw [if_neg Bool.false_ne_true]
      refine .inr ⟨?_, settles_printListing htokens⟩
      rintro - ⟨⟩
    | true =>
      rw [if_pos rfl]
      by_cases htext : ∃ text : String, bytes = text.toUTF8.data.toList
      · obtain ⟨text, rfl⟩ := htext
        exact .inl ⟨text, rfl, rfl, rfl, openViewer_text o.path o.mode text⟩
      · have hne := not_exists.1 htext
        exact .inr ⟨fun _ _ => hne, settles_openViewer hne⟩

end

/-- Every run goes on in the viewer if it is to, and otherwise ends with a report on what there is to print. -/
theorem run_cases (program : String) (args : List String) (files : String → Option (List UInt8)) :
    (Browses args files ∧ ∃ stderr v, run program args files = .browse stderr v) ∨
      (¬ Browses args files ∧ ∃ r, run program args files = .report r ∧ r.Settles (Prints args files)) := by
  unfold run Browses Prints
  cases hparse : Options.parse args with
  | error e =>
    refine .inr ⟨?_, settles_failure _ ?_⟩
    · rintro ⟨o, text, ⟨⟩, -⟩
    · rintro out ⟨o, bytes, ⟨⟩, -⟩
  | ok o =>
    -- The options are those that the arguments give, so that what is left is about the file.
    simp only [Except.ok.injEq, exists_and_left, exists_eq_left']
    cases hfile : files o.path with
    | none =>
      refine .inr ⟨?_, settles_failure _ ?_⟩
      · simp
      · simp
    | some bytes =>
      simp only [Option.some.injEq, exists_eq_left']
      rcases execute_cases program o bytes with ⟨text, htokens, hview, htext, hrun⟩ | ⟨hne, hrun⟩
      · exact .inl ⟨⟨htokens, hview, text, htext⟩, hrun⟩
      · refine .inr ⟨?_, hrun⟩
        rintro ⟨htokens, hview, text, htext⟩
        exact hne htokens hview text htext

end CommandLine

/-- The arguments are accepted exactly if all options are known and one file is named, whatever the order and the number of the options;
otherwise the first argument that offends is at fault, or there is no file. A run that does not go on in the viewer has the code 0
exactly if they are accepted, the file is there and what they select can be done with its bytes. Then its output is that of the text which
the bytes encode. In every other case the code is 1 and there is no output. -/
theorem command_line_agrees (program : String) (args : List String) (files : String → Option (List UInt8)) :
    ((∃ o, Options.parse args = .ok o) ↔
      (∀ arg ∈ args, arg.startsWith "--" = true → arg ∈ Options.flagNames) ∧ (Options.fileNames args).length = 1) ∧
    (∀ o, Options.parse args = .ok o → Options.fileNames args = [o.path] ∧ o.toFlags = .namedIn args) ∧
    (∀ args', Options.withoutFlags args' = Options.withoutFlags args → (∀ flag ∈ Options.flagNames, flag ∈ args' ↔ flag ∈ args) →
      Options.parse args' = Options.parse args) ∧
    (∀ e, Options.parse args = .error e ↔
      Options.FirstOffence args e ∨ (e = .noInput ∧ ∀ arg ∈ args, arg ∈ Options.flagNames)) ∧
    ((∃ stderr v, CommandLine.run program args files = .browse stderr v) ↔ CommandLine.Browses args files) ∧
    ∀ r, CommandLine.run program args files = .report r →
      (r.code = 0 ↔ ∃ out, CommandLine.Prints args files out) ∧
      (r.code = 0 → ∃ o, ∃ text : String, Options.parse args = .ok o ∧ files o.path = some text.toUTF8.data.toList ∧
        o.Yields (.ofString text) r.stdout) ∧
      (r.code ≠ 0 → r.code = 1 ∧ r.stdout = "") := by
  refine ⟨?_, ?_, ?_, ?_, ?_, ?_⟩
  · constructor
    · rintro ⟨o, ho⟩
      obtain ⟨hknown, hfile, -⟩ := Options.parse_eq_ok_iff.1 ho
      exact ⟨hknown, congrArg List.length hfile⟩
    · rintro ⟨hknown, hlength⟩
      obtain ⟨path, hfile⟩ := List.length_eq_one_iff.1 hlength
      exact ⟨{ toFlags := .namedIn args, path }, Options.parse_eq_ok_iff.2 ⟨hknown, hfile, rfl⟩⟩
  · intro o ho
    exact (Options.parse_eq_ok_iff.1 ho).2
  · intro args' hrest hflags
    exact Options.parse_congr hrest hflags
  · intro e
    exact Options.parse_eq_error_iff
  · rcases CommandLine.run_cases program args files with ⟨hbrowses, hrun⟩ | ⟨hbrowses, r, hrun, -⟩
    · exact ⟨fun _ => hbrowses, fun _ => hrun⟩
    · refine ⟨?_, fun h => absurd h hbrowses⟩
      rintro ⟨stderr, v, hrun'⟩
      rw [hrun] at hrun'
      cases hrun'
  · intro r hr
    rcases CommandLine.run_cases program args files with ⟨-, stderr, v, hrun⟩ | ⟨-, r', hrun, hsettles⟩
    · rw [hr] at hrun
      cases hrun
    · rw [hr] at hrun
      cases hrun
      rcases hsettles with ⟨hcode, hprints⟩ | ⟨hcode, hempty, hnone⟩
      · refine ⟨⟨fun _ => ⟨_, hprints⟩, fun _ => hcode⟩, fun _ => ?_, fun h => absurd hcode h⟩
        obtain ⟨o, bytes, ho, hbytes, hyields⟩ := hprints
        obtain ⟨text, rfl⟩ := hyields.exists_text
        exact ⟨o, text, ho, hbytes, Options.yields_ofBytes.1 hyields⟩
      · have hne : r.code ≠ 0 := by
          rw [hcode]
          decide
        refine ⟨⟨fun h => absurd h hne, ?_⟩, fun h => absurd h hne, fun _ => ⟨hcode, hempty⟩⟩
        rintro ⟨out, hout⟩
        exact absurd hout (hnone out)

/-- The bytes of a file of two statements. -/
def Sample.incrementFile : List UInt8 := "let a: int = 1;\na = a + 2;\n".toUTF8.data.toList

/-- The bytes of a file that has tokens but is no program. -/
def Sample.callFile : List UInt8 := "f(12)\n".toUTF8.data.toList

/-- A directory with these two files. -/
def Sample.directory (name : String) : Option (List UInt8) :=
  if name = "a.c0" then some incrementFile else if name = "b.c0" then some callFile else none

/-- An option that is given twice, in front of the file and behind it; and the tokens of the other file. -/
theorem command_line_agrees_repeated :
    (∃ r, CommandLine.run "c0stack" ["--statements", "a.c0", "--statements"] Sample.directory = .report r ∧ r.code = 0 ∧
      r.stdout = "   0: LIT 1\n   1: STO 0\n   2: LOD 0\n   3: LIT 2\n   4: ADD\n   5: STO 0\n" ∧
      Options.parse ["a.c0", "--statements"] = Options.parse ["--statements", "a.c0", "--statements"] ∧
      ∃ o, ∃ text : String, Options.parse ["--statements", "a.c0", "--statements"] = .ok o ∧
        Sample.directory o.path = some text.toUTF8.data.toList ∧ o.Yields (.ofString text) r.stdout) ∧
    ∃ r, CommandLine.run "c0stack" ["b.c0", "--tokens"] Sample.directory = .report r ∧ r.code = 0 ∧
      r.stdout = "   1:1    identifier 'f'\n   1:2    '('\n   1:3    integer literal 12\n   1:5    ')'\n   2:1    end of file\n" ∧
      ∃ o, ∃ text : String, Options.parse ["b.c0", "--tokens"] = .ok o ∧
        Sample.directory o.path = some text.toUTF8.data.toList ∧ o.Yields (.ofString text) r.stdout := by
  have hlisting := Outcome.report?_eq_some.1 (show
    (CommandLine.run "c0stack" ["--statements", "a.c0", "--statements"] Sample.directory).report? =
      some ⟨"   0: LIT 1\n   1: STO 0\n   2: LOD 0\n   3: LIT 2\n   4: ADD\n   5: STO 0\n",
        "Compiling a.c0...\nCompiled successfully. Emitted 6 instructions.\n", 0⟩ by decide +kernel)
  have htokens := Outcome.report?_eq_some.1 (show (CommandLine.run "c0stack" ["b.c0", "--tokens"] Sample.directory).report? =
      some ⟨"   1:1    identifier 'f'\n   1:2    '('\n   1:3    integer literal 12\n   1:5    ')'\n   2:1    end of file\n",
        "Tokenizing b.c0...\nTokenized successfully. Found 5 tokens.\n", 0⟩ by decide +kernel)
  obtain ⟨-, -, hcongr, -, -, hlisted⟩ := command_line_agrees "c0stack" ["--statements", "a.c0", "--statements"] Sample.directory
  obtain ⟨-, -, -, -, -, hprinted⟩ := command_line_agrees "c0stack" ["b.c0", "--tokens"] Sample.directory
  have horder := hcongr ["a.c0", "--statements"] (by decide +kernel) (by decide +kernel)
  refine ⟨⟨_, hlisting, rfl, rfl, horder, ?_⟩, ⟨_, htokens, rfl, rfl, ?_⟩⟩
  · exact (hlisted _ hlisting).2.1 rfl
  · exact (hprinted _ htokens).2.1 rfl

end C0Stack
