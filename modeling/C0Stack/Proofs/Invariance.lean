import C0Stack.Proofs.Relabeling.Code
import C0Stack.Proofs.Relabeling.Parser
import C0Stack.Proofs.Token.Shape
import Mathlib.Data.List.Forall2
import Mathlib.Logic.Equiv.Basic

/-!
# What a compilation depends on

A text is compiled by the kinds of its tokens, its integers and the pattern of its names: two texts that agree in these give the same
instructions, or the same fault but for the names in it (`compile_alike`). Blanks, line breaks and what strings and doubles hold make
no difference. A place that comes out is that of a token, and in both texts it is the token of the same number.

Both texts are compared with a third, in which every token stands in the place of its number: its compilation shows which token each
place was taken from, and the two texts are relabelings of it.
-/

namespace C0Stack

variable {φ : Relabeling}

/-! ## The compilation of a relabeled stream -/

/-- What a compilation gives, relabeled. -/
def relabelOutcome (φ : Relabeling) : Except Diagnostic Program → Except Diagnostic Program
  | .ok p => .ok (p.relabel φ)
  | .error d => .error (d.relabel φ)

/-- The program that is assembled is the relabeled one, or the fault is. -/
theorem Assembling.Relabels.assemble {m m' : Assembling Unit} (h : Relabels φ m m') : m'.assemble = relabelOutcome φ m.assemble := by
  have hrun := h .empty
  rw [Assembly.relabel_empty] at hrun
  unfold Assembling.assemble
  rw [hrun]
  cases m.run .empty <;> rfl

namespace TokenStream

/-- Compiles the tokens of a program or of a sequence of statements. -/
def compile (mode : Mode) (t : TokenStream) : Except Diagnostic Program :=
  match mode with
  | .program => t.compileProgram
  | .statements => t.compileStatements

/-- The compilation of a relabeled stream is the relabeled compilation. -/
theorem Relabels.compile_eq {t t' : TokenStream} (hφ : φ.Faithful) (h : t.Relabels φ t') (mode : Mode) :
    t'.compile mode = relabelOutcome φ (t.compile mode) := by
  cases mode with
  | program =>
    rw [compile, compileProgram, CompilationUnit.relabels_parse h]
    exact (CompilationUnit.relabels_emit hφ _).assemble
  | statements =>
    rw [compile, compileStatements, (Stmt.relabels_parseAll t t' h).value_eq]
    exact (Stmt.relabels_emit hφ .outermost _).assemble

end TokenStream

theorem compile_eq (mode : Mode) (s : Source) : compile mode s = (TokenStream.ofSource s).compile mode := by
  cases mode <;> rfl

/-! ## The places that come out -/

/-- No new names leave the cause as it is. -/
theorem Cause.rename_id (c : Cause) : c.rename id = c := by
  cases c <;> rfl

/-- The places in what a compilation gives: those of the instructions, or that of the fault. -/
def places : Except Diagnostic Program → List Position
  | .ok p => p.positions
  | .error d => [d.pos]

theorem Program.instructions_relabel (p : Program) : (p.relabel φ).instructions = p.instructions := by
  simp [instructions, relabel, CodeLine.relabel]

theorem Program.positions_relabel (p : Program) : (p.relabel φ).positions = p.positions.map φ.pos := by
  simp [positions, relabel, CodeLine.relabel]

/-- The places that come out are the new ones. -/
theorem places_relabelOutcome (outcome : Except Diagnostic Program) :
    places (relabelOutcome φ outcome) = (places outcome).map φ.pos := by
  cases outcome with
  | error d => rfl
  | ok p => exact p.positions_relabel

namespace TokenStream

/-- The places of the tokens, and that of the end or of the fault behind them. -/
def starts : TokenStream → List Position
  | done pos => [pos]
  | broken error => [error.pos]
  | more first rest => first.start :: rest.starts

/-- A stream is itself relabeled, if its names and its places stay. -/
theorem relabels_self {t : TokenStream} (hname : φ.name = id) (hpos : ∀ p ∈ t.starts, φ.pos p = p) : t.Relabels φ t := by
  induction t with
  | done pos =>
    have h : Relabels φ _ _ := .done pos
    rwa [hpos pos (by simp [starts])] at h
  | broken error =>
    have h : Relabels φ _ _ := .broken error
    rwa [Diagnostic.relabel, hname, Cause.rename_id, hpos error.pos (by simp [starts])] at h
  | more first rest ih =>
    refine .more ⟨rfl, (hpos first.start (by simp [starts])).symm, fun _ => .rfl, fun _ => ?_⟩ (ih fun p hp => hpos p ?_)
    · rw [hname]
      rfl
    · exact List.mem_cons_of_mem _ hp

/-- Every place that comes out of a compilation is the place of a token. -/
theorem mem_starts_of_mem_places {t : TokenStream} {mode : Mode} {p : Position} (hp : p ∈ places (t.compile mode)) :
    p ∈ t.starts := by
  -- a relabeling that moves all other places leaves the stream alone, and so what comes out of it
  let moved : Relabeling := ⟨id, fun q => if q ∈ t.starts then q else ⟨q.line + 1, q.column⟩⟩
  have hfaithful : moved.Faithful := ⟨Function.injective_id, fun _ => rfl, rfl⟩
  have hself : t.Relabels moved t := relabels_self rfl fun q hq => if_pos hq
  have hplaces := congrArg places (hself.compile_eq hfaithful mode)
  rw [places_relabelOutcome] at hplaces
  have hfixed : ∀ q ∈ places (t.compile mode), moved.pos q = q := by
    intro q hq
    exact List.map_inj_left.1 (hplaces.symm.trans (List.map_id _).symm) q hq
  by_contra hnot
  have hmoved : (if p ∈ t.starts then p else ⟨p.line + 1, p.column⟩) = p := hfixed p hp
  rw [if_neg hnot] at hmoved
  exact Nat.succ_ne_self p.line (congrArg Position.line hmoved)

end TokenStream

/-! ## Texts that are alike -/

/-- The tokens are of one kind, hold the same integer, and have names that correspond. -/
structure Token.Alike (ρ : String → String) (t u : Token) : Prop where
  kind_eq : u.kind = t.kind
  value_eq : t.kind = .integer → u.value = t.value
  text_eq : t.kind = .name → u.text = ρ t.text

instance (ρ : String → String) (t u : Token) : Decidable (t.Alike ρ u) :=
  decidable_of_iff (u.kind = t.kind ∧ (t.kind = .integer → u.value = t.value) ∧ (t.kind = .name → u.text = ρ t.text))
    ⟨fun ⟨h₁, h₂, h₃⟩ => ⟨h₁, h₂, h₃⟩, fun h => ⟨h.1, h.2, h.3⟩⟩

/-- The places are those of the tokens of one number. -/
def SamePlace (ts us : List Token) (p q : Position) : Prop :=
  ∃ (k : Nat) (t u : Token), ts[k]? = some t ∧ us[k]? = some u ∧ t.start = p ∧ u.start = q

theorem Token.Alike.refl (t : Token) : t.Alike id t := ⟨rfl, fun _ => rfl, fun _ => rfl⟩

/-- Alike tokens are relabeled ones, if each holds what its kind says. -/
theorem Token.Alike.relabels {t u : Token} (h : t.Alike φ.name u) (ht : t.WellShaped) (hu : u.WellShaped) {p : Position}
    (hp : u.start = φ.pos p) : Token.Relabels φ { t with start := p } u where
  kind_eq := h.kind_eq
  start_eq := hp
  text_eq := h.text_eq
  integer_iff n := by
    by_cases hkind : t.kind = .integer
    · rw [h.value_eq hkind]
    · exact iff_of_false (hu.value_ne (h.kind_eq ▸ hkind) n) (ht.value_ne hkind n)

namespace TokenStream

/-- The tokens in order, each in the place of its number, from `k` on. -/
def numbered (k : Nat) : List Token → TokenStream
  | [] => done ⟨k, 0⟩
  | token :: tokens => more { token with start := ⟨k, 0⟩ } (numbered (k + 1) tokens)

/-- The place of a numbered token is its number. -/
theorem exists_of_mem_starts_numbered {k : Nat} {ts : List Token} {p : Position} (h : p ∈ (numbered k ts).starts) :
    ∃ i ≤ ts.length, p = ⟨k + i, 0⟩ := by
  induction ts generalizing k with
  | nil => exact ⟨0, Nat.le_refl 0, List.mem_singleton.1 h⟩
  | cons token ts ih =>
    rcases List.mem_cons.1 h with rfl | h
    · exact ⟨0, Nat.zero_le _, rfl⟩
    · obtain ⟨i, hi, rfl⟩ := ih h
      refine ⟨i + 1, Nat.succ_le_succ hi, ?_⟩
      rw [Nat.add_right_comm, Nat.add_assoc]

/-- Alike tokens are the numbered ones, relabeled with the place for each number. -/
theorem numbered_relabels {ts us : List Token} (h : List.Forall₂ (Token.Alike φ.name) ts us) (hts : ∀ t ∈ ts, t.WellShaped)
    (hus : ∀ u ∈ us, u.WellShaped) {pos : Position} {k : Nat}
    (hpos : ∀ (i : Nat) (u : Token), (us ++ [Token.endAt pos])[i]? = some u → φ.pos ⟨k + i, 0⟩ = u.start) :
    (numbered k ts).Relabels φ ((done pos).prepend us) := by
  induction h generalizing k with
  | nil =>
    have hend : φ.pos ⟨k, 0⟩ = pos := hpos 0 (Token.endAt pos) rfl
    have h : Relabels φ _ _ := .done ⟨k, 0⟩
    rwa [hend] at h
  | cons hfirst hrest ih =>
    refine .more (hfirst.relabels (hts _ List.mem_cons_self) (hus _ List.mem_cons_self) (hpos 0 _ rfl).symm) ?_
    refine ih (fun t ht => hts t (List.mem_cons_of_mem _ ht)) (fun u hu => hus u (List.mem_cons_of_mem _ hu)) fun i u hu => ?_
    rw [Nat.add_right_comm]
    exact hpos (i + 1) u hu

end TokenStream

/-- A source that was cut into tokens is the stream of these tokens. -/
theorem Source.exists_of_tokenize {s : Source} {ts : List Token} (h : s.tokenize = .ok ts) :
    ∃ pos, ts = s.lex.tokens ++ [Token.endAt pos] ∧ TokenStream.ofSource s = (TokenStream.done pos).prepend s.lex.tokens := by
  obtain ⟨pos, hend, rfl⟩ := tokenize_eq_ok.1 h
  have hlex : s.lex = ⟨s.lex.tokens, .ok pos⟩ := by rw [← hend]
  exact ⟨pos, rfl, congrArg TokenStream.ofLexed hlex⟩

/-- The place of the token that a numbered place stands for. -/
def placeIn (ts : List Token) (p : Position) : Position := (ts[p.line]?.map Token.start).getD p

/-- A numbered place stands for the place of the token of that number. -/
theorem placeIn_of_getElem? {ts : List Token} {k : Nat} {t : Token} (h : ts[k]? = some t) : placeIn ts ⟨k, 0⟩ = t.start := by
  unfold placeIn
  rw [h]
  rfl

/-- The places of tokens of one number correspond. -/
theorem samePlace_placeIn {ts us : List Token} (hlen : us.length = ts.length) {i : Nat} (hi : i < ts.length) :
    SamePlace ts us (placeIn ts ⟨i, 0⟩) (placeIn us ⟨i, 0⟩) := by
  have ht : ts[i]? = some ts[i] := List.getElem?_eq_getElem hi
  have hu : us[i]? = some us[i] := List.getElem?_eq_getElem (hlen ▸ hi)
  exact ⟨i, ts[i], us[i], ht, hu, (placeIn_of_getElem? ht).symm, (placeIn_of_getElem? hu).symm⟩

/-- A text that is alike a text which was cut into tokens is compiled as the numbered tokens of that text are. -/
theorem compile_eq_relabelOutcome {ρ : String → String} (hρ : ρ.Injective)
    (hfixed : ∀ x ∈ ["void", "int", "double", "char", "main"], ρ x = x) {s₁ s₂ : Source} {ts : List Token}
    (hts : s₂.tokenize = .ok ts) (h : List.Forall₂ (Token.Alike ρ) s₁.lex.tokens s₂.lex.tokens) (mode : Mode) :
    compile mode s₂ = relabelOutcome ⟨ρ, placeIn ts⟩ ((TokenStream.numbered 0 s₁.lex.tokens).compile mode) := by
  obtain ⟨pos, rfl, hs⟩ := s₂.exists_of_tokenize hts
  have hfaithful : Relabeling.Faithful ⟨ρ, placeIn (s₂.lex.tokens ++ [Token.endAt pos])⟩ := by
    refine ⟨hρ, fun ty => hfixed ty.name ?_, hfixed "main" (by simp)⟩
    cases ty <;> simp [Ty.name]
  rw [compile_eq, hs]
  refine (TokenStream.numbered_relabels h (fun _ => s₁.wellShaped_of_mem_lex) (fun _ => s₂.wellShaped_of_mem_lex) ?_).compile_eq
    hfaithful mode
  intro i u hu
  rw [Nat.zero_add]
  exact placeIn_of_getElem? hu

/-- Two texts whose tokens are alike are compiled to the same instructions, or refused for the same cause, and the places that come
out are those of corresponding tokens. -/
theorem compile_alike {ρ : String → String} (hρ : ρ.Injective) (hfixed : ∀ x ∈ ["void", "int", "double", "char", "main"], ρ x = x)
    {s₁ s₂ : Source} {ts₁ ts₂ : List Token} (h₁ : s₁.tokenize = .ok ts₁) (h₂ : s₂.tokenize = .ok ts₂)
    (h : List.Forall₂ (Token.Alike ρ) ts₁ ts₂) (mode : Mode) :
    (∃ p₁ p₂, compile mode s₁ = .ok p₁ ∧ compile mode s₂ = .ok p₂ ∧ p₁.instructions = p₂.instructions ∧
      List.Forall₂ (SamePlace ts₁ ts₂) p₁.positions p₂.positions) ∨
    ∃ d₁ d₂, compile mode s₁ = .error d₁ ∧ compile mode s₂ = .error d₂ ∧ d₂.cause = d₁.cause.rename ρ ∧
      SamePlace ts₁ ts₂ d₁.pos d₂.pos := by
  obtain ⟨pos₁, hts₁, -⟩ := s₁.exists_of_tokenize h₁
  obtain ⟨pos₂, hts₂, -⟩ := s₂.exists_of_tokenize h₂
  have hlen : ts₂.length = ts₁.length := h.length_eq.symm
  have htokens : List.Forall₂ (Token.Alike ρ) s₁.lex.tokens s₂.lex.tokens := by
    have hlen' : s₂.lex.tokens.length = s₁.lex.tokens.length := by simpa [hts₁, hts₂] using hlen
    have htake := List.forall₂_take s₁.lex.tokens.length h
    rw [hts₁, List.take_left, hts₂, ← hlen', List.take_left] at htake
    exact htake
  have hsame : List.Forall₂ (Token.Alike id) s₁.lex.tokens s₁.lex.tokens := List.forall₂_same.2 fun t _ => .refl t
  have hcompile₁ := compile_eq_relabelOutcome Function.injective_id (fun _ _ => rfl) h₁ hsame mode
  have hcompile₂ := compile_eq_relabelOutcome hρ hfixed h₂ htokens mode
  have hplace : ∀ p ∈ places ((TokenStream.numbered 0 s₁.lex.tokens).compile mode),
      SamePlace ts₁ ts₂ (placeIn ts₁ p) (placeIn ts₂ p) := by
    intro p hp
    obtain ⟨i, hi, rfl⟩ := TokenStream.exists_of_mem_starts_numbered (TokenStream.mem_starts_of_mem_places hp)
    rw [Nat.zero_add]
    exact samePlace_placeIn hlen (by simpa [hts₁] using Nat.lt_succ_of_le hi)
  cases hnumbered : (TokenStream.numbered 0 s₁.lex.tokens).compile mode with
  | ok p =>
    rw [hnumbered] at hcompile₁ hcompile₂ hplace
    refine .inl ⟨_, _, hcompile₁, hcompile₂, ?_, ?_⟩
    · rw [Program.instructions_relabel, Program.instructions_relabel]
    · rw [Program.positions_relabel, Program.positions_relabel, List.forall₂_map_left_iff, List.forall₂_map_right_iff]
      exact List.forall₂_same.2 hplace
  | error d =>
    rw [hnumbered] at hcompile₁ hcompile₂ hplace
    refine .inr ⟨_, _, hcompile₁, hcompile₂, ?_, hplace d.pos (List.mem_singleton_self _)⟩
    exact congrArg (Cause.rename ρ) d.cause.rename_id.symm

/-- Two variables in a loop, written on one line. -/
def Sample.countingLoop : Source := .ofString "let i: int = 0; let j: int = 9; while i < j \x7b i = i + 1; \x7d"

/-- The same written over several lines, with the names the other way round. -/
def Sample.countingLoopRenamed : Source := .ofString "let j : int=0;\nlet i : int=9;\nwhile j<i\n\x7bj=j+1;\x7d"

/-- The two loops are alike, and both are compiled. -/
theorem compile_alike_counting : ∃ ts₁ ts₂, Sample.countingLoop.tokenize = .ok ts₁ ∧ Sample.countingLoopRenamed.tokenize = .ok ts₂ ∧
    List.Forall₂ (Token.Alike (Equiv.swap "i" "j")) ts₁ ts₂ ∧ ∃ p₁ p₂, compile .statements Sample.countingLoop = .ok p₁ ∧
    compile .statements Sample.countingLoopRenamed = .ok p₂ ∧ p₁.instructions = p₂.instructions ∧
    List.Forall₂ (SamePlace ts₁ ts₂) p₁.positions p₂.positions := by
  obtain ⟨htokens₁, htokens₂, hok, halike⟩ : Sample.countingLoop.tokenize.isOk ∧ Sample.countingLoopRenamed.tokenize.isOk ∧
      (compile .statements Sample.countingLoop).isOk ∧
      (Sample.countingLoop.tokenize.toOption.getD []).length = (Sample.countingLoopRenamed.tokenize.toOption.getD []).length ∧
      ∀ q ∈ (Sample.countingLoop.tokenize.toOption.getD []).zip (Sample.countingLoopRenamed.tokenize.toOption.getD []),
        q.1.Alike (Equiv.swap "i" "j") q.2 := by
    rw [Sample.countingLoop, Sample.countingLoopRenamed, Source.ofString_ofList, Source.ofString_ofList]
    decide +kernel
  obtain ⟨ts₁, h₁⟩ := Assembling.exists_eq_ok htokens₁
  obtain ⟨ts₂, h₂⟩ := Assembling.exists_eq_ok htokens₂
  rw [h₁, h₂] at halike
  have h : List.Forall₂ (Token.Alike (Equiv.swap "i" "j")) ts₁ ts₂ := List.forall₂_iff_zip.2 ⟨halike.1, fun hq => halike.2 _ hq⟩
  refine ⟨ts₁, ts₂, h₁, h₂, h, ?_⟩
  have hfixed : ∀ x ∈ ["void", "int", "double", "char", "main"], Equiv.swap "i" "j" x = x := by decide
  rcases compile_alike (Equiv.injective _) hfixed h₁ h₂ h .statements with hok | ⟨d, -, hd, -⟩
  · exact hok
  · obtain ⟨p, hp⟩ := Assembling.exists_eq_ok hok
    rw [hp] at hd
    cases hd

end C0Stack
