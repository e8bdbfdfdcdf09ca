import C0Stack.Proofs.Storage.Units

/-!
# Reads behind writes

In front of each instruction that reads a variable stands one that writes it, and the declaration that the name stands for is in front
of that one (`Emission.Stands.exists_write`): a variable is noted as written where the store is emitted, in the scope that declares it,
and a scope that is opened later, or was closed before, has notes of its own. Only parameters are read without a write.
-/

namespace C0Stack

open Assembling

/-- The name stands for the variable, which is declared in the scope at the depth. -/
def SymbolTable.Resolves (t : SymbolTable) (x : String) (d : Nat) (v : Variable) : Prop :=
  t.declared? d x = some (.storage v) ∧ ∀ d', d < d' → t.declared? d' x = none

namespace Emission

/-- The list of statements starts with the declaration of the variable, which has been written since. -/
def Introduces (D : Emission) (x : String) (v : Variable) : Prop :=
  ∃ F y w, D.StartsWith F ∧ F.Declares y w ∧ y.name = x ∧ v = { w with initialized := true }

variable {calls : Nat → Option Signature} {lines : List CodeLine} {E₀ D E F : Emission} {x y : Ident} {v w : Variable}

theorem Runs.after_eq {ctx : Context} {s : Stmt} {a b b' : Assembly} (h : Runs ⟨ctx, s, a, b⟩) (h' : Runs ⟨ctx, s, a, b'⟩) :
    b = b' :=
  congrArg Prod.snd (Except.ok.inj (h.symm.trans h'))

/-- The variable is declared in all that follows its declaration. -/
theorem StartsWith.declared?_of_covers (hfirst : D.StartsWith F) (h : D.Stands calls lines) (hF : F.Declares y w)
    (hE : D.Covers E) :
    E = D ∨ E = F ∨
      ∃ flag, E.before.symbols.declared? D.before.symbols.depth y.name = some (.storage { w with initialized := flag }) := by
  rcases hE.cases_head with rfl | ⟨C, hhas, hcovers⟩
  · exact .inl rfl
  · cases hfirst with
    | first h₁ h₂ =>
      cases hhas with
      | first h₁' =>
        obtain rfl := h₁.after_eq h₁'
        rcases hcovers.cases_head with rfl | ⟨C, hhas, -⟩
        · exact .inr (.inl rfl)
        · cases hF
          cases hhas
      | rest h₁' h₂' =>
        obtain rfl := h₁.after_eq h₁'
        obtain ⟨flag, hy⟩ := hF.declared?_after h₁
        exact .inr (.inr (((h.of_has (.rest h₁' h₂')).evolves_of_covers hcovers).keeps y.name { w with initialized := flag } hy))

/-- A scope does not declare a name twice. -/
theorem StartsWith.declared?_eq_none (hfirst : D.StartsWith F) (hF : F.Declares y w) :
    D.before.symbols.declared? D.before.symbols.depth y.name = none := by
  rw [← hfirst.before_eq]
  cases hF with
  | decl _ hd => exact SymbolTable.declared?_eq_none_of_declare hd

/-- So it is where a name is used. -/
theorem StartsWith.declared?_of_accesses (hfirst : D.StartsWith F) (h : D.Stands calls lines) (hF : F.Declares y w)
    (hE : D.Covers E) {k : Access} {b : Assembly} (haccess : E.Accesses k x b) :
    ∃ flag, b.symbols.declared? D.before.symbols.depth y.name = some (.storage { w with initialized := flag }) := by
  rcases hfirst.declared?_of_covers h hF hE with rfl | rfl | ⟨flag, hy⟩
  · obtain ⟨e, a, heval, -⟩ := haccess
    cases hfirst
    cases heval
  · -- the value that the variable is declared with
    obtain ⟨e, a, heval, haccess⟩ := haccess
    rw [← hfirst.before_eq]
    cases hF with
    | decl hname hd =>
      cases heval with
      | init hname' hd' =>
        obtain rfl := Option.some.inj (hname.symm.trans hname')
        obtain ⟨rfl, rfl⟩ := Prod.mk.inj (Except.ok.inj (hd.symm.trans hd'))
        refine SymbolTable.declared?_storage_of_written haccess.written_eq ?_
        rw [SymbolTable.declared?_declare hd, if_pos ⟨rfl, rfl⟩]
  · exact ((h.of_covers hE).evolves_access haccess).keeps y.name { w with initialized := flag } hy

/-- A statement and those inside it write the variables that are noted as written up to a use of a name. -/
theorem Stands.evolves_of_accesses (h : E₀.Stands calls lines) (hE : E₀.Covers E) {k : Access} {b : Assembly}
    (haccess : E.Accesses k x b) {d : Nat} : Assembly.Evolves (E₀.ctx.Writes lines) d E₀.before b := by
  have hlast : Assembly.Evolves (E.ctx.Writes lines) d E.before b := (h.of_covers hE).evolves_access haccess
  rw [Context.writes_eq (congrArg Option.isSome (function_eq_of_covers hE))] at hlast
  exact (h.evolves_of_covers hE).trans hlast

/-- A variable that is noted as written where a name is used was declared in front, or it is written between its declaration and the
use. -/
theorem Stands.exists_write (h : E₀.Stands calls lines) (hl : E₀.stmt.Listed) (hE : E₀.Covers E) {k : Access} {b : Assembly}
    (haccess : E.Accesses k x b) {d : Nat} {z : String} (hz : b.symbols.declared? d z = some (.storage v))
    (hv : v.initialized = true) :
    (∃ flag, E₀.before.symbols.declared? d z = some (.storage { v with initialized := flag })) ∨
      ∃ D n, E₀.Covers D ∧ D.Covers E ∧ D.Introduces z v ∧ D.before.symbols.depth = d ∧ D.before.nextAddress ≤ n ∧
        n < b.nextAddress ∧ E₀.ctx.Writes lines v.scope v.slot n := by
  rcases exists_declaredIn_of_accesses hE hl h.structured haccess hz with ⟨w, hw⟩ | ⟨D, hD, hcovers, rfl, F, y, w, hfirst, hF, rfl⟩
  · obtain ⟨flag, hz'⟩ := (h.evolves_of_accesses hE haccess).keeps z w hw
    rw [hz] at hz'
    cases hz'
    exact .inl ⟨w.initialized, hw⟩
  · have hstands := h.of_covers hD
    obtain ⟨flag, hz'⟩ := hfirst.declared?_of_accesses hstands hF hcovers haccess
    rw [hz] at hz'
    cases hz'
    cases hv
    rcases (hstands.evolves_of_accesses hcovers haccess).written y.name _ hz rfl with ⟨w', hw', -⟩ | ⟨n, hn, hlt, hwrites⟩
    · rw [hfirst.declared?_eq_none hF] at hw'
      cases hw'
    · refine .inr ⟨D, n, hD, hcovers, ⟨F, y, w, hfirst, hF, rfl, rfl⟩, rfl, hn, hlt, ?_⟩
      rw [← Context.writes_eq (congrArg Option.isSome (function_eq_of_covers hD))]
      exact hwrites

/-- Each instruction that reads is that of the use of a variable that has been noted as written. -/
theorem Stands.exists_read (h : E₀.Stands calls lines) {n : Nat} {line : CodeLine} (hn : E₀.before.nextAddress ≤ n)
    (hlt : n < E₀.after.nextAddress) (hline : lines[n]? = some line)
    (hop : line.instruction.op = .lod ∨ line.instruction.op = .lodg) :
    ∃ E x b v d, E₀.Covers E ∧ E.Accesses .read x b ∧ Access.read.Made E.ctx x b v n line.instruction ∧ v.initialized = true ∧
      b.symbols.Resolves x.name d v := by
  have hstore : ∀ (ctx : Context) (w : Variable), line.instruction ≠ ⟨ctx.storeOp w, some w.slot⟩ := by
    intro ctx w hi
    rw [hi, Context.storeOp] at hop
    split at hop <;> simp at hop
  have haccess : line.instruction.op.isAccess = true := by
    rcases hop with hop | hop <;> rw [hop] <;> rfl
  rcases h.exists_access hn hlt hline haccess with ⟨E, k, x, b, v, hE, hk, hmade, hallowed⟩ | ⟨E, x, v, b, -, -, -, hi⟩
  · cases k with
    | read =>
      obtain ⟨d, hx⟩ := SymbolTable.find?_eq_some.1 hmade.found
      exact ⟨E, x, b, v, d, hE, hk, hmade, hallowed, hx⟩
    | write => exact absurd hmade.instruction (hstore _ _)
  · exact absurd hi (hstore _ _)

/-- A list of statements ends with the empty one. -/
theorem covers_nil {ctx : Context} {s : Stmt} {a a' : Assembly} (h : Runs ⟨ctx, s, a, a'⟩) (hl : s.Listed) :
    Covers ⟨ctx, s, a, a'⟩ ⟨ctx, .nil, a', a'⟩ := by
  induction s generalizing a with
  | nil =>
    have run : (Stmt.nil.emit ctx).run a = .ok ((), a') := h
    obtain ⟨-, rfl⟩ := run_pure_eq_ok.1 (by rwa [Stmt.emit] at run)
    exact .refl
  | seq first rest _ ih =>
    obtain ⟨a₁, h₁, h₂⟩ := Stmt.run_emit_seq.1 h
    rw [Stmt.Listed] at hl
    exact .head (.rest h₁ h₂) (ih h₂ hl.2)
  | _ => simp [Stmt.Listed] at hl

end Emission

/-! ## Programs -/

/-- The instruction at the address stores in the slot. The functions begin at the address `g`, and from there on the slots of the
outermost scope are not in the current frame. -/
def Program.Writes (p : Program) (g : Nat) (scope : Scope) (slot n : Nat) : Prop :=
  p.instructions[n]? = some ⟨if scope = .outermost ∧ g ≤ n then .stog else .sto, some slot⟩

namespace CompilationUnit

variable {u : CompilationUnit} {f : Function} {g b : Assembly} {E₀ E : Emission} {calls : Nat → Option Signature} {p : Program}
  {x : Ident} {v : Variable}

/-- The use of the name in the body of a function is that of a parameter, whose slot is its position. -/
def ReadsParam (u : CompilationUnit) (E : Emission) (x : String) (b : Assembly) (v : Variable) : Prop :=
  ∃ f E₀ q, u.EmitsBodyOf f E₀ ∧ E₀.Covers E ∧ b.symbols.Resolves x 1 v ∧
    (∃ flag, E₀.before.symbols.declared? 1 x = some (.storage { v with initialized := flag })) ∧
    f.params[v.slot]? = some q ∧ q.name.name = x

/-- The statement is in the scope of what the list of statements starts with: it is in the list, or the list is outside functions
and the statement is in a function. -/
def Sees (u : CompilationUnit) (g : Assembly) (D E : Emission) : Prop :=
  u.Emits D ∧ D.Covers E ∨ Emission.Covers ⟨.outermost, u.globals, .empty, g⟩ D ∧ ∃ f E₀, u.EmitsBodyOf f E₀ ∧ E₀.Covers E

/-- Outside functions the slots are those of the current frame. -/
theorem writes_of_lt {ctx : Context} {scope : Scope} {slot n : Nat} (hctx : ctx.function.isSome = false)
    (h : ctx.Writes p.lines.toList scope slot n) (hn : n < g.nextAddress) : p.Writes g.nextAddress scope slot n := by
  rw [Program.Writes, if_neg (fun hle => Nat.not_lt.2 hle.2 hn)]
  rw [Context.Writes, hctx, Bool.and_false] at h
  exact Program.getElem?_instructions.2 h

/-- In functions those of the outermost scope are not. -/
theorem writes_of_le {ctx : Context} {scope : Scope} {slot n : Nat} (hctx : ctx.function.isSome = true)
    (h : ctx.Writes p.lines.toList scope slot n) (hn : g.nextAddress ≤ n) : p.Writes g.nextAddress scope slot n := by
  rw [Program.Writes, Program.getElem?_instructions]
  simpa [Context.Writes, hctx, hn] using h

namespace Placed

/-- Where the functions begin, each variable outside functions has been declared, and those noted as written have been written. -/
theorem exists_evolves (h : u.Placed g calls p.lines.toList) {z : String} {w : Variable}
    (hz : g.symbols.declared? 0 z = some (.storage w)) :
    ∃ D F y w', Emission.Covers ⟨.outermost, u.globals, .empty, g⟩ D ∧ D.before.symbols.depth = 0 ∧ D.StartsWith F ∧
      F.Declares y w' ∧ y.name = z ∧ (∃ flag, w = { w' with initialized := flag }) ∧
      Assembly.Evolves (p.Writes g.nextAddress) 0 D.before g := by
  have hstands := h.stands _ h.begins_globals
  have hl := h.listed _ h.begins_globals
  have hnil := Emission.covers_nil h.globals hl
  rcases Emission.exists_declaredIn hnil hl hstands.structured hz with ⟨w', hw'⟩ |
    ⟨D, hD, hcovers, hdepth, F, y, w', hfirst, hF, rfl⟩
  · cases (SymbolTable.declared?_empty 0 z).symm.trans hw'
  · have hD' := hstands.of_covers hD
    refine ⟨D, F, y, w', hD, hdepth, hfirst, hF, rfl, ?_, ?_⟩
    · rcases hfirst.declared?_of_covers hD' hF hcovers with rfl | rfl | ⟨flag, hy⟩
      · cases hfirst
      · cases hF
      · rw [hdepth] at hy
        rw [hy] at hz
        cases hz
        exact ⟨flag, rfl⟩
    · have hevolves := hD'.evolves_of_covers (d := 0) hcovers
      refine hevolves.mono fun scope slot n _ hn hwrites => writes_of_lt ?_ hwrites hn
      rw [Emission.function_eq_of_covers hD]
      rfl

/-- A variable outside functions that is noted as written where a function uses a name is written between its declaration and the
use. -/
theorem exists_global_write (h : u.Placed g calls p.lines.toList) (hE₀ : u.EmitsBodyOf f E₀) (hE : E₀.Covers E) {k : Access}
    (haccess : E.Accesses k x b) {z : String} {w : Variable} (hw : E₀.before.symbols.declared? 0 z = some (.storage w))
    (hz : b.symbols.declared? 0 z = some (.storage v)) (hv : v.initialized = true) :
    ∃ D n, Emission.Covers ⟨.outermost, u.globals, .empty, g⟩ D ∧ D.Introduces z v ∧ D.before.symbols.depth = 0 ∧
      D.before.nextAddress ≤ n ∧ n < b.nextAddress ∧ p.Writes g.nextAddress v.scope v.slot n := by
  obtain ⟨hbegins, a, hopens, hlt, hfunctions, hback⟩ := h.opens hE₀
  obtain ⟨w, hw⟩ := hback z w ((hopens.global_iff z w).1 hw)
  obtain ⟨D, F, y, w', hD, hdepth, hfirst, hF, rfl, ⟨flag, rfl⟩, hglobals⟩ := h.exists_evolves hw
  have hbegin : Assembly.Evolves (p.Writes g.nextAddress) 0 a E₀.before :=
    .of_storage_iff (Nat.le_of_eq hopens.nextAddress_eq.symm) hopens.global_iff
  have hfront : g.nextAddress ≤ E₀.before.nextAddress := Nat.le_trans (Nat.le_of_lt hlt) hbegin.le
  have hbody := (h.stands E₀ hbegins).evolves_of_accesses (d := 0) hE haccess
  -- from the declarations through the functions in front to the body
  have hrest : Assembly.Evolves (p.Writes g.nextAddress) 0 g b := by
    refine (hfunctions.mono fun scope slot n hn _ hwrites => writes_of_le rfl hwrites hn).trans (hbegin.trans ?_)
    exact hbody.mono fun scope slot n hn _ hwrites => writes_of_le hopens.function hwrites (Nat.le_trans hfront hn)
  obtain ⟨flag', hz'⟩ := hrest.keeps y.name _ hw
  rw [hz] at hz'
  cases hz'
  cases hv
  rcases (hglobals.trans hrest).written y.name _ hz rfl with ⟨w, hw, -⟩ | ⟨n, hn, hlt, hwrites⟩
  · have hnone := hfirst.declared?_eq_none hF
    rw [hdepth, hw] at hnone
    cases hnone
  · exact ⟨D, n, hD, ⟨F, y, w', hfirst, hF, rfl, rfl⟩, hdepth, hn, hlt, hwrites⟩

/-- Each read is of a parameter or of a variable that is written between its declaration and the read. -/
theorem exists_read (h : u.Placed g calls p.lines.toList) {n : Nat} {i : Instruction} (hi : p.instructions[n]? = some i)
    (hop : i.op = .lod ∨ i.op = .lodg) :
    ∃ E x b v, u.Emits E ∧ E.Accesses .read x b ∧ Access.read.Made E.ctx x b v n i ∧
      (u.ReadsParam E x.name b v ∧ i.op = .lod ∨
        ∃ D m, u.Sees g D E ∧ D.Introduces x.name v ∧ b.symbols.Resolves x.name D.before.symbols.depth v ∧
          D.before.nextAddress ≤ m ∧ m < n ∧ p.Writes g.nextAddress v.scope v.slot m) := by
  obtain ⟨line, hline, rfl⟩ := Program.getElem?_instructions.1 hi
  have haccess : line.instruction.op.isAccess = true := by
    rcases hop with hop | hop <;> rw [hop] <;> rfl
  obtain ⟨E₀, hbegins, hn, hlt⟩ := h.exists_begins n line hline haccess
  have hstands := h.stands E₀ hbegins
  obtain ⟨E, x, b, v, d, hE, hread, hmade, hv, hx⟩ := hstands.exists_read hn hlt hline hop
  refine ⟨E, x, b, v, ⟨E₀, hbegins, hE⟩, hread, hmade, ?_⟩
  obtain rfl := hmade.address
  rcases hstands.exists_write (h.listed E₀ hbegins) hE hread hx.1 hv with
    ⟨flag, hfirst⟩ | ⟨D, m, hD, hcovers, hintroduces, rfl, hm, hmlt, hwrites⟩
  · rcases hbegins.cases h.globals with rfl | ⟨f, hE₀⟩
    · cases (SymbolTable.declared?_empty d x.name).symm.trans hfirst
    · obtain ⟨-, a, hopens, -⟩ := h.opens hE₀
      have hd := SymbolTable.le_depth_of_declared? hfirst
      rw [hopens.depth_eq, Nat.le_one_iff_eq_zero_or_eq_one] at hd
      rcases hd with rfl | rfl
      · obtain ⟨D, m, hD, hintroduces, hdepth, hm, hlt, hwrites⟩ := h.exists_global_write hE₀ hE hread hfirst hx.1 hv
        exact .inr ⟨D, m, .inr ⟨hD, f, E₀, hE₀, hE⟩, hintroduces, hdepth ▸ hx, hm, hlt, hwrites⟩
      · obtain ⟨q, hq, hname⟩ := hopens.exists_param x.name _ hfirst
        refine .inl ⟨⟨f, E₀, q, hE₀, hE, hx, ⟨flag, hfirst⟩, hq, hname⟩, ?_⟩
        have hscope : v.scope ≠ .outermost := fun hscope =>
          Nat.one_ne_zero (((h.separate hbegins).scope 1 x.name _ hfirst).1 hscope)
        rw [hmade.instruction, Access.op, Context.loadOp, Context.isRemote]
        simp [hscope]
  · refine .inr ⟨D, m, .inl ⟨⟨E₀, hbegins, hD⟩, hcovers⟩, hintroduces, hx, hm, hmlt, ?_⟩
    rcases hbegins.cases h.globals with rfl | ⟨f, hE₀⟩
    · exact writes_of_lt rfl hwrites (Nat.lt_trans hmlt hlt)
    · obtain ⟨-, a, hopens, hfunctions, -⟩ := h.opens hE₀
      have hfront := (hstands.evolves_of_covers (d := 0) hD).le
      rw [hopens.nextAddress_eq] at hfront
      exact writes_of_le hopens.function hwrites (by omega)

end Placed

end CompilationUnit

/-- In front of each read stands a write of the same variable, behind its declaration, or it is the read of a parameter. -/
theorem reads_behind_writes {mode : Mode} {s : Source} {p : Program} (h : compile mode s = .ok p) :
    (mode = .program → ∃ pos u a g, s.lex.ending = .ok pos ∧ Grammar.ProgramText s.lex.tokens pos u ∧
      u.emit.run .empty = .ok ((), a) ∧ a.program = p ∧ (u.globals.emit .outermost).run .empty = .ok ((), g) ∧
      ∀ n i, p.instructions[n]? = some i → i.op = .lod ∨ i.op = .lodg →
        ∃ E x b v, u.Emits E ∧ E.Accesses .read x b ∧ Access.read.Made E.ctx x b v n i ∧
          (u.ReadsParam E x.name b v ∧ i.op = .lod ∨
            ∃ D m, u.Sees g D E ∧ D.Introduces x.name v ∧ b.symbols.Resolves x.name D.before.symbols.depth v ∧
              D.before.nextAddress ≤ m ∧ m < n ∧ p.Writes g.nextAddress v.scope v.slot m)) ∧
    (mode = .statements → ∃ S a, Grammar.Statements s.lex.tokens S ∧ (S.emit .outermost).run .empty = .ok ((), a) ∧
      a.program = p ∧
      ∀ n i, p.instructions[n]? = some i → i.op = .lod ∨ i.op = .lodg →
        ∃ E x b v, Emission.Covers ⟨.outermost, S, .empty, a⟩ E ∧ E.Accesses .read x b ∧ Access.read.Made E.ctx x b v n i ∧
          ∃ D m, Emission.Covers ⟨.outermost, S, .empty, a⟩ D ∧ D.Covers E ∧ D.Introduces x.name v ∧
            b.symbols.Resolves x.name D.before.symbols.depth v ∧ D.before.nextAddress ≤ m ∧ m < n ∧
            p.instructions[m]? = some ⟨.sto, some v.slot⟩) := by
  cases mode with
  | program =>
    obtain ⟨pos, u, a, hend, hu, hrun, rfl⟩ := compile_program_eq_ok.1 h
    obtain ⟨g, calls, hplaced⟩ := CompilationUnit.exists_placed hu hrun
    refine ⟨fun _ => ⟨pos, u, a, g, hend, hu, hrun, rfl, hplaced.globals, fun n i hi hop => ?_⟩, nofun⟩
    exact hplaced.exists_read hi hop
  | statements =>
    obtain ⟨pos, S, a, -, hS, hrun, rfl⟩ := compile_statements_eq_ok.1 h
    refine ⟨nofun, fun _ => ⟨S, a, hS, hrun, rfl, fun n i hi hop => ?_⟩⟩
    have hstands := hS.structured.stands hrun
    obtain ⟨line, hline, rfl⟩ := Program.getElem?_instructions.1 hi
    have hlt : n < a.nextAddress := (List.getElem?_eq_some_iff.1 hline).1
    obtain ⟨E, x, b, v, d, hE, hread, hmade, hv, hx⟩ := hstands.exists_read (Nat.zero_le n) hlt hline hop
    refine ⟨E, x, b, v, hE, hread, hmade, ?_⟩
    obtain rfl := hmade.address
    rcases hstands.exists_write hS.listed hE hread hx.1 hv with
      ⟨flag, hfirst⟩ | ⟨D, m, hD, hcovers, hintroduces, rfl, hm, hmlt, line, hline, hi⟩
    · cases (SymbolTable.declared?_empty d x.name).symm.trans hfirst
    · refine ⟨D, m, hD, hcovers, hintroduces, hx, hm, hmlt, Program.getElem?_instructions.2 ⟨line, hline, hi.trans ?_⟩⟩
      simp [Context.outermost]

/-- A variable outside functions that only a function writes, and names that are shadowed. -/
def Sample.shadowedNames : Source :=
  .ofString "let s: int; fn f(n: int) -> int \x7b s = n; \x7b let n: int = s; s = n; \x7d let s: int = n; return s; \x7d"

/-- In a program with names that hide others each read comes behind a write. -/
theorem reads_behind_writes_shadowed : ∃ p, compile .program Sample.shadowedNames = .ok p ∧ ∃ pos u a g,
    Sample.shadowedNames.lex.ending = .ok pos ∧
    Grammar.ProgramText Sample.shadowedNames.lex.tokens pos u ∧ u.emit.run .empty = .ok ((), a) ∧ a.program = p ∧
    (u.globals.emit .outermost).run .empty = .ok ((), g) ∧
    ∀ n i, p.instructions[n]? = some i → i.op = .lod ∨ i.op = .lodg →
      ∃ E x b v, u.Emits E ∧ E.Accesses .read x b ∧ Access.read.Made E.ctx x b v n i ∧
        (u.ReadsParam E x.name b v ∧ i.op = .lod ∨
          ∃ D m, u.Sees g D E ∧ D.Introduces x.name v ∧ b.symbols.Resolves x.name D.before.symbols.depth v ∧
            D.before.nextAddress ≤ m ∧ m < n ∧ p.Writes g.nextAddress v.scope v.slot m) := by
  have hok : (compile .program Sample.shadowedNames).isOk := by
    rw [Sample.shadowedNames, Source.ofString_ofList]
    decide +kernel
  obtain ⟨p, hp⟩ := Assembling.exists_eq_ok hok
  exact ⟨p, hp, (reads_behind_writes hp).1 rfl⟩

end C0Stack
