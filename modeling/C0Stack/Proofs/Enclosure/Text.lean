import C0Stack.Proofs.Acceptance
import C0Stack.Proofs.Enclosure.Code
import C0Stack.Proofs.Invariance
import C0Stack.Proofs.Token.Joined

/-!
# Statements as the body of `main`

A text of statements can be compiled on its own, or as the body of a function `main` that returns nothing. Where each return in it is
one of no value the two agree (`compile_enclosed`): the code of the statements is the same but for the jumps, which go one address
further, and in the places the line is one further down.

The places are compared with those of a text that starts one line above the first, so that in it the statements stand in their own
places. Moving all of it one line down gives the text itself.
-/

namespace C0Stack

open Assembling

/-! ## The unit -/

/-- Behind statements outside functions only the outermost scope is open. -/
theorem Stmt.Assembled.nested_eq_nil {s : Stmt} {a : Assembly} {code : Nat → List CodeLine} {w : List Nat}
    (h : Assembled .outermost s .empty a code w) : a.symbols.nested = [] := by
  rw [← SymbolTable.scope_eq_outermost]
  exact SymbolTable.scope_of_tail_frames (h.compiled 0).tail_frames

/-- The unit of a function `main` with the given body, and no other. -/
def CompilationUnit.ofBody (word name returns close stop : Position) (body : Stmt) : CompilationUnit :=
  ⟨.nil, [.defn word ⟨"main", name⟩ [] ⟨"void", returns⟩ body close], .ok stop⟩

/-- A unit with `main` around the statements is emitted: the jump past the body, its code moved by one address, and the call. -/
theorem CompilationUnit.exists_emit_ofBody (word name returns close stop : Position) {s : Stmt} (hs : s.Structured) {a : Assembly}
    (h : (s.emit .outermost).run .empty = .ok ((), a)) (hreturns : Emission.ReturnsNothing ⟨.outermost, s, .empty, a⟩) :
    ∃ b, (ofBody word name returns close stop s).emit.run .empty = .ok ((), b) ∧
      b.code = ⟨⟨.jmp, some (a.code.length + 2)⟩, word⟩ :: (a.code.map CodeLine.moved ++
        [⟨⟨.ret, none⟩, close⟩, ⟨⟨.call, some 1⟩, stop⟩, ⟨⟨.ret, none⟩, stop⟩]) := by
  let main : Signature := ⟨.void, 1, []⟩
  let outer : Frame := (SymbolTable.empty.withFunction "main" main).outermost
  let b₀ : Assembly := { Assembly.empty.push .jmp (some 0) word with symbols := ⟨[⟨[], 0⟩], outer⟩ }
  have hb₀ : Assembly.empty.Encloses outer b₀ := ⟨rfl, rfl⟩
  obtain ⟨b₁, he⟩ := Stmt.exists_enclosed hs rfl hb₀ hreturns h
  obtain ⟨code, code', w, w', hasm, hasm', hcode⟩ := he.code
  have ha : a.code = code 0 := hasm.code_eq
  have hb₁ : b₁.code = ⟨⟨.jmp, some 0⟩, word⟩ :: a.code.map CodeLine.moved := by
    rw [hasm'.code_eq, hcode 0 0 nofun, ha]
    rfl
  have hleave : b₁.symbols.leave = ⟨[], outer⟩ := by
    have hnested := hasm.nested_eq_nil
    rw [he.symbols_eq, SymbolTable.enclose, SymbolTable.frames, hnested]
    rfl
  have hmain : b₁.symbols.leave.find? "main" = some (.function main) := by
    rw [hleave]
    rfl
  have hdefn : (Function.defn word ⟨"main", name⟩ [] ⟨"void", returns⟩ s close).emit.run (Assembly.empty.push .jmp (some 0) word) =
      .ok ((), { b₁.push .ret none close with symbols := b₁.symbols.leave }) :=
    Function.run_emit_defn.2 ⟨[], .void, _, _, b₁, .nil, rfl, rfl, .nil, he.run, rfl⟩
  let b₂ : Assembly := { b₁.push .ret none close with symbols := b₁.symbols.leave }
  have hb₂ : b₂.code = [] ++ ⟨⟨.jmp, some 0⟩, word⟩ :: (a.code.map CodeLine.moved ++ [⟨⟨.ret, none⟩, close⟩]) := by
    change (b₁.push .ret none close).code = _
    rw [Assembly.code_push, hb₁]
    rfl
  have hfunctions : (emitFunctions (ofBody word name returns close stop s).functions).run .empty = .ok ((), b₂.patch 0) :=
    run_emitFunctions_cons.2 ⟨b₂, Function.run_forM_emit_cons.2 ⟨b₂, hdefn, rfl⟩, rfl⟩
  refine ⟨_, run_emit.2 ⟨.empty, b₂.patch 0, stop, rfl, hfunctions, rfl, ?_, rfl⟩, ?_⟩
  · intro f hf
    rw [Assembly.symbols_patch, hmain] at hf
    cases hf
    rfl
  · have hcall : (b₂.patch 0).symbols.signature? "main" = some main := SymbolTable.signature?_eq_some.2 hmain
    have hpatch : (b₂.patch 0).code = _ := Assembly.code_patch_of_eq hb₂ rfl
    rw [Assembly.code_push, code_callMain, hcall, hpatch, hb₂]
    simp [main]

/-! ## The text -/

/-- The text as the body of `main`, on lines of its own. -/
def enclosed (text : String) : String := "fn main() -> void \x7b\n" ++ text ++ "\n\x7d"

/-- The characters of a text between two lines. -/
theorem toList_lines {first text last : String} {cs ds : List Char} (hfirst : first.toList = cs ++ ['\n'])
    (hlast : last.toList = '\n' :: ds) : (first ++ text ++ last).toList = cs ++ '\n' :: (text.toList ++ '\n' :: ds) := by
  rw [String.toList_append, String.toList_append, hfirst, hlast, List.append_assoc, List.append_assoc, List.singleton_append]

namespace TokenStream

/-- A stream of moved tokens is the stream, relabeled. -/
theorem relabels_move (f : Position → Position) (ts : List Token) (pos : Position) :
    ((done pos).prepend ts).Relabels ⟨id, f⟩ ((done (f pos)).prepend (ts.map (Token.move f))) := by
  induction ts with
  | nil => exact .done pos
  | cons t ts ih => exact .more ⟨rfl, rfl, fun _ => .rfl, fun _ => rfl⟩ ih

end TokenStream

/-- The tokens in front of the body, where the text starts in the line before the first. -/
def headerTokens : List Token :=
  [⟨.kwFn, .empty, ⟨0, 1⟩, ⟨0, 3⟩⟩, ⟨.name, .text "main", ⟨0, 4⟩, ⟨0, 8⟩⟩, ⟨.openParen, .empty, ⟨0, 8⟩, ⟨0, 9⟩⟩,
    ⟨.closeParen, .empty, ⟨0, 9⟩, ⟨0, 10⟩⟩, ⟨.arrow, .empty, ⟨0, 11⟩, ⟨0, 13⟩⟩, ⟨.name, .text "void", ⟨0, 14⟩, ⟨0, 18⟩⟩,
    ⟨.openBrace, .empty, ⟨0, 19⟩, ⟨0, 20⟩⟩]

/-- The tokens of the first line. -/
theorem lex_header : Source.lex ⟨"fn main() -> void \x7b".toList, [], ⟨0, 1⟩⟩ = ⟨headerTokens, .ok ⟨0, 20⟩⟩ := by
  have htokens : (Source.lex ⟨"fn main() -> void \x7b".toList, [], ⟨0, 1⟩⟩).tokens = headerTokens := by decide +kernel
  have hend := eq_ok_of_toOption
    (show (Source.lex ⟨"fn main() -> void \x7b".toList, [], ⟨0, 1⟩⟩).ending.toOption = some ⟨0, 20⟩ by decide +kernel)
  rw [← htokens, ← hend]

/-- The last token, and where the text ends. -/
theorem lex_closeBrace (pos : Position) :
    Source.lex ⟨['\x7d'], [], pos⟩ = ⟨[⟨.closeBrace, .empty, pos, pos.advance '\x7d'⟩], .ok (pos.advance '\x7d')⟩ := by
  have htoken : Source.token ⟨['\x7d'], [], pos⟩ =
      (.ok ⟨.closeBrace, .empty, pos, pos.advance '\x7d'⟩, ⟨[], [], pos.advance '\x7d'⟩) := by
    have hcons := Source.token_of_cons (List.forall_mem_nil _) (show Text.isBlank '\x7d' = false by decide) [] pos
    rw [List.nil_append] at hcons
    rw [hcons, Lexing.tokenFrom, if_neg (by decide), if_neg (by decide), if_neg (by decide)]
    rfl
  have hrest : Source.lex ⟨[], [], pos.advance '\x7d'⟩ = ⟨[], .ok (pos.advance '\x7d')⟩ := by
    rw [Source.lex_eq, Source.token_of_blank (List.forall_mem_nil _)]
    rfl
  rw [Source.lex_eq, htoken]
  simp only [reduceCtorEq, if_false, hrest]

/-- The tokens of the enclosed text, one line further up: those in front of the body, those of the body and the closing brace. -/
def enclosedTokens (body : Source) : List Token :=
  let close := (body.pos.advanceAll body.buffer).advance '\n'
  headerTokens ++ (body.lex.tokens ++ [⟨.closeBrace, .empty, close, close.advance '\x7d'⟩])

/-- Where the enclosed text ends, one line further up. -/
def enclosedStop (body : Source) : Position := ((body.pos.advanceAll body.buffer).advance '\n').advance '\x7d'

/-- The tokens of the enclosed text, each one line further down. -/
theorem lex_enclosed {text : String} {stop : Position} (h : (Source.ofString text).lex.ending = .ok stop) :
    (Source.ofString (enclosed text)).lex =
      ⟨(enclosedTokens (.ofString text)).map (Token.move .down), .ok (enclosedStop (.ofString text)).down⟩ := by
  have hchars : (enclosed text).toList = "fn main() -> void \x7b".toList ++ '\n' :: (text.toList ++ '\n' :: ['\x7d']) :=
    toList_lines (by decide +kernel) (by decide +kernel)
  have hbody : Source.lex ⟨text.toList, [], .start⟩ = ⟨(Source.ofString text).lex.tokens, .ok stop⟩ := by
    rw [← h]
    rfl
  have hsteady := Position.steady_down
  have hlex := Source.lex_joined hsteady (text.toList ++ '\n' :: ['\x7d']) lex_header
  have hstart : ((Position.down ⟨0, 1⟩).advanceAll "fn main() -> void \x7b".toList).advance '\n' = Position.start.down := by
    decide +kernel
  rw [hstart, Source.lex_joined hsteady ['\x7d'] hbody, ← hsteady.advanceAll, ← hsteady, lex_closeBrace, ← hsteady] at hlex
  rw [Source.ofString, hchars]
  refine hlex.trans ?_
  simp [enclosedTokens, enclosedStop, Token.move, Source.ofString]

/-- The tokens in front of the body and behind it have the values of their kinds. -/
theorem shaped_enclosedTokens (text : String) : Grammar.Shaped (enclosedTokens (.ofString text)) := by
  have hheader : Grammar.Shaped headerTokens := by
    have hlex : (Source.lex ⟨"fn main() -> void \x7b".toList, [], ⟨0, 1⟩⟩).tokens = headerTokens := by rw [lex_header]
    exact hlex ▸ fun _ => Source.wellShaped_of_mem_lex _
  refine List.forall_mem_append.2 ⟨hheader, List.forall_mem_append.2 ⟨fun _ => Source.wellShaped_of_mem_lex _, ?_⟩⟩
  intro t ht
  obtain rfl := List.mem_singleton.1 ht
  simp [Token.WellShaped]

/-- The tokens of an enclosed text are those of a program whose only function is `main`, with the statements as its body. -/
theorem programText_enclosed {body : Source} {s : Stmt} (h : Grammar.Statements body.lex.tokens s) (stop : Position) :
    Grammar.ProgramText (enclosedTokens body) stop
      (.ofBody ⟨0, 1⟩ ⟨0, 4⟩ ⟨0, 14⟩ ((body.pos.advanceAll body.buffer).advance '\n') stop s) := by
  let close := (body.pos.advanceAll body.buffer).advance '\n'
  let brace : Token := ⟨.closeBrace, .empty, close, close.advance '\x7d'⟩
  have hbody : Grammar.Body (body.lex.tokens ++ [brace]) (s, close) := .close h rfl
  have hmain : Grammar.FunctionDefinition (headerTokens ++ (body.lex.tokens ++ [brace])) _ :=
    .defn rfl rfl rfl .none rfl rfl rfl rfl hbody
  have hprogram : Grammar.ProgramText _ stop _ := .mk .nil (.cons hmain .nil)
  rwa [List.nil_append, List.append_nil] at hprogram

/-- Every return in the text, read as statements, is one of no value. -/
def Source.ReturnsNothing (s : Source) : Prop :=
  ∀ S a, Grammar.Statements s.lex.tokens S → (S.emit .outermost).run .empty = .ok ((), a) →
    Emission.ReturnsNothing ⟨.outermost, S, .empty, a⟩

/-- Statements that are accepted on their own, with no value returned, are accepted as the body of `main`. A jump past them comes in
front of their code, and `RET`, the call of `main` and the last `RET` behind it. In their code the jumps go one address further, and
in its places the line is one further down. -/
theorem compile_enclosed {text : String} {p : Program} (hp : compile .statements (.ofString text) = .ok p)
    (hreturns : (Source.ofString text).ReturnsNothing) :
    ∃ q, compile .program (.ofString (enclosed text)) = .ok q ∧
      q.instructions = ⟨.jmp, some (p.size + 2)⟩ :: (p.instructions.map Instruction.moved ++
        [⟨.ret, none⟩, ⟨.call, some 1⟩, ⟨.ret, none⟩]) ∧
      (q.positions.drop 1).take p.size = p.positions.map fun pos => ⟨pos.line + 1, pos.column⟩ := by
  obtain ⟨stop, S, a, hend, hS, hrun, rfl⟩ := compile_statements_eq_ok.1 hp
  have hs : S.Structured := hS.structured
  obtain ⟨b, hb, hcode⟩ := CompilationUnit.exists_emit_ofBody ⟨0, 1⟩ ⟨0, 4⟩ ⟨0, 14⟩ _ (enclosedStop (.ofString text)) hs hrun
    (hreturns S a hS hrun)
  have hparse := (programText_enclosed hS (enclosedStop (.ofString text))).parse_eq (shaped_enclosedTokens text)
  have habove : ((TokenStream.done (enclosedStop (.ofString text))).prepend (enclosedTokens (.ofString text))).compile .program =
      .ok b.program := by
    rw [TokenStream.compile, TokenStream.compileProgram, hparse]
    exact assemble_eq_ok.2 ⟨b, hb, rfl⟩
  have hlex := lex_enclosed hend
  have hsource : TokenStream.ofSource (.ofString (enclosed text)) = _ :=
    TokenStream.ofSource_eq.2 ⟨congrArg Source.Lexed.ending hlex, congrArg Source.Lexed.tokens hlex⟩
  have hcompile := (TokenStream.relabels_move .down (enclosedTokens (.ofString text)) (enclosedStop (.ofString text))).compile_eq
    ⟨Function.injective_id, fun _ => rfl, rfl⟩ .program
  rw [habove, ← hsource, ← compile_eq] at hcompile
  have hsize : a.program.size = a.code.length := rfl
  refine ⟨_, hcompile, ?_, ?_⟩
  · rw [Program.instructions_relabel]
    change b.code.map CodeLine.instruction = _ :: ((a.code.map CodeLine.instruction).map Instruction.moved ++ _)
    rw [hcode, hsize, List.map_cons, List.map_append, List.map_map, List.map_map]
    rfl
  · rw [Program.positions_relabel]
    change (((b.code.map CodeLine.pos).map Position.down).drop 1).take _ = (a.code.map CodeLine.pos).map Position.down
    rw [hcode, hsize, List.map_cons, List.map_append, List.map_map, List.map_cons, List.map_append, List.drop_one, List.tail_cons,
      List.take_left' (by simp)]
    rfl

/-! ### Texts with plain returns -/

/-- No return in the statement has a value. -/
def Stmt.returnsPlainly : Stmt → Bool
  | seq first rest => first.returnsPlainly && rest.returnsPlainly
  | block body | ifThen _ _ body | loop _ _ body => body.returnsPlainly
  | ifElse _ _ body _ other => body.returnsPlainly && other.returnsPlainly
  | retValue .. => false
  | _ => true

/-- A part of a statement with plain returns has plain returns. -/
theorem Emission.Has.returnsPlainly {E E' : Emission} (h : E.Has E') (hE : E.stmt.returnsPlainly) : E'.stmt.returnsPlainly := by
  cases h with
  | first | ifElse => exact (Bool.and_eq_true_iff.1 hE).1
  | rest | alternative => exact (Bool.and_eq_true_iff.1 hE).2
  | block | ifThen | loop => exact hE

/-- So have parts at any depth. -/
theorem Emission.returnsPlainly_of_covers {E E' : Emission} (h : E.stmt.returnsPlainly) (hE : E.Covers E') :
    E'.stmt.returnsPlainly := by
  induction hE with
  | refl => exact h
  | tail _ hlast ih => exact hlast.returnsPlainly ih

/-- A plain return is one of no value. -/
theorem Emission.returnsNothing_of_plainly {E : Emission} (h : E.stmt.returnsPlainly) : E.ReturnsNothing := by
  intro E' ty n hcovers hreturns
  have hE' := returnsPlainly_of_covers h hcovers
  cases hreturns with
  | ret => rfl
  | retValue => cases hE'

/-- A loop that is left in the middle, once by `break` and once by `return`. -/
def Sample.loopLeftTwice : String :=
  "let i: int = 9;\nwhile i \x7b\n  if i == 2 \x7b break; \x7d else \x7b i = i - 1; \x7d\n  if i < 0 \x7b return; \x7d\n\x7d"

/-- A loop that is left twice has plain returns, and is compiled in both ways. -/
theorem compile_enclosed_leaving : ∃ p q, compile .statements (.ofString Sample.loopLeftTwice) = .ok p ∧
    (Source.ofString Sample.loopLeftTwice).ReturnsNothing ∧
    compile .program (.ofString (enclosed Sample.loopLeftTwice)) = .ok q ∧
      q.instructions = ⟨.jmp, some (p.size + 2)⟩ :: (p.instructions.map Instruction.moved ++
        [⟨.ret, none⟩, ⟨.call, some 1⟩, ⟨.ret, none⟩]) ∧
      (q.positions.drop 1).take p.size = p.positions.map fun pos => ⟨pos.line + 1, pos.column⟩ := by
  obtain ⟨hok, hplain⟩ : (compile .statements (.ofString Sample.loopLeftTwice)).isOk ∧
      (Stmt.parseAll (.ofSource (.ofString Sample.loopLeftTwice))).1.returnsPlainly := by
    rw [Sample.loopLeftTwice, Source.ofString_ofList]
    decide +kernel
  obtain ⟨p, hp⟩ := exists_eq_ok hok
  have hreturns : (Source.ofString Sample.loopLeftTwice).ReturnsNothing := by
    intro S a hS hrun
    obtain ⟨stop, _, _, hend, -⟩ := compile_statements_eq_ok.1 hp
    rw [TokenStream.ofSource_eq.2 ⟨hend, rfl⟩, hS.parseAll_eq stop fun _ => Source.wellShaped_of_mem_lex _] at hplain
    exact Emission.returnsNothing_of_plainly hplain
  obtain ⟨q, hq⟩ := compile_enclosed hp hreturns
  exact ⟨p, q, hp, hreturns, hq⟩

end C0Stack
