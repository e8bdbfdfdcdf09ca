import C0Stack.Compiler
import C0Stack.Proofs.Code.CompilationUnit
import C0Stack.Proofs.Grammar.CompilationUnit
import C0Stack.Proofs.Static.CompilationUnit
import C0Stack.Proofs.Translation

/-!
# Acceptance

A tree is emitted exactly if it keeps the static rules (`Stmt.valid_of_emit`, `Stmt.exists_emit` and their like for functions and
units). A text is therefore compiled exactly if the grammar derives a tree from it that keeps them (`acceptance_exact`), and the
program is what is emitted for this tree (`compile_statements_eq_ok`, `compile_program_eq_ok`).
-/

namespace C0Stack

open Assembling

namespace Stmt

/-- A statement that is emitted keeps the static rules. -/
theorem valid_of_emit {ctx : Context} {s : Stmt} {a a' : Assembly} {u : Unit} (h : (s.emit ctx).run a = .ok (u, a')) :
    Valid ctx.function ctx.loop.isSome a.symbols.scopes s a'.symbols.scopes := by
  induction s generalizing ctx a a' u with
  | nil =>
    obtain ⟨-, rfl⟩ := run_pure_eq_ok.1 (by rwa [emit_nil] at h)
    exact .nil
  | empty =>
    obtain ⟨-, rfl⟩ := run_pure_eq_ok.1 (by rwa [emit_empty] at h)
    exact .empty
  | seq first rest ih₁ ih₂ =>
    obtain ⟨a₁, h₁, h₂⟩ := run_emit_seq.1 h
    exact .seq (ih₁ h₁) (ih₂ h₂)
  | decl pos constant x target init =>
    rw [a.symbols.scopes_eq_cons]
    cases init with
    | none =>
      obtain ⟨ty, v, t, hname, hty, ht, rfl⟩ := run_emit_decl.1 h
      rw [SymbolTable.scopes_declare ht]
      exact .decl (SymbolTable.names_of_declare ht) hname hty
    | some e =>
      obtain ⟨ty, v, t, a₁, t₁, hname, hty, ht, he, ht₁, rfl⟩ := run_emit_init.1 h
      have he := (Expr.emitted he).typed
      rw [SymbolTable.scopes_declare ht] at he
      obtain rfl : v.ty = ty := by
        obtain ⟨-, rfl, -⟩ := SymbolTable.declare_eq_ok.1 ht
        rfl
      rw [SymbolTable.scopes_markWritten ht₁]
      exact .init (SymbolTable.names_of_declare ht) hname hty he
  | expr e =>
    obtain ⟨ty, a₁, he, rfl⟩ := run_emit_expr.1 h
    have hsymbols : (if ty = .void then a₁ else a₁.push .pop none e.start).symbols = a₁.symbols := by
      split <;> rfl
    rw [hsymbols]
    exact .expr (Expr.emitted he).typed
  | block body ih =>
    obtain ⟨a₁, h₁, rfl⟩ := run_emit_block.1 h
    have hbody := ih h₁
    have hnested : a₁.symbols.nested ≠ [] := by
      have hlen := hbody.length_eq
      intro hnil
      simp [hnil] at hlen
    rw [a₁.symbols.scopes_eq_cons] at hbody
    rw [SymbolTable.scopes_leave hnested]
    exact .block hbody
  | ifThen pos condition body ih =>
    obtain ⟨ty, a₁, a₂, hc, hty, h₂, rfl⟩ := run_emit_ifThen.1 h
    have hbody := ih h₂
    exact .ifThen (Expr.emitted hc).typed hty hbody
  | ifElse pos condition body elsePos other ih₂ ih₃ =>
    obtain ⟨ty, a₁, a₂, a₃, hc, hty, h₂, h₃, rfl⟩ := run_emit_ifElse.1 h
    have hbody := ih₂ h₂
    have hother := ih₃ h₃
    exact .ifElse (Expr.emitted hc).typed hty hbody hother
  | loop pos condition body ih =>
    obtain ⟨ty, a₁, a₂, hc, hty, h₂, rfl⟩ := run_emit_loop.1 h
    rw [Assembly.symbols_foldl_patch]
    exact .loop (Expr.emitted hc).typed hty (ih h₂)
  | leave pos =>
    obtain ⟨hloop, rfl⟩ := run_emit_leave.1 h
    rw [hloop]
    exact .leave
  | again pos =>
    obtain ⟨head, hhead, rfl⟩ := run_emit_again.1 h
    rw [hhead]
    exact .again
  | ret pos stop =>
    obtain ⟨hty, rfl⟩ := run_emit_ret.1 h
    exact .ret hty
  | retValue pos e =>
    obtain ⟨found, a₁, he, hty, rfl⟩ := run_emit_retValue.1 h
    exact .retValue (Expr.emitted he).typed hty
  | fault error => exact (run_throw_eq_ok.1 (by rwa [emit_fault] at h)).elim

/-- A statement that keeps the static rules is emitted. -/
theorem exists_emit {returns : Option Ty} {inLoop : Bool} {Γ Γ' : Scopes} {s : Stmt} (h : Valid returns inLoop Γ s Γ')
    {ctx : Context} (hreturns : ctx.function = returns) (hloop : ctx.loop.isSome = inLoop) {a : Assembly}
    (ha : a.symbols.scopes = Γ) : ∃ a', (s.emit ctx).run a = .ok ((), a') ∧ a'.symbols.scopes = Γ' := by
  induction h generalizing ctx a with
  | nil => exact ⟨a, by rw [emit_nil]; exact run_pure_eq_ok.2 ⟨rfl, rfl⟩, ha⟩
  | empty => exact ⟨a, by rw [emit_empty]; exact run_pure_eq_ok.2 ⟨rfl, rfl⟩, ha⟩
  | seq _ _ ih₁ ih₂ =>
    obtain ⟨a₁, h₁, ha₁⟩ := ih₁ hreturns hloop ha
    obtain ⟨a₂, h₂, ha₂⟩ := ih₂ hreturns hloop ha₁
    exact ⟨a₂, run_emit_seq.2 ⟨a₁, h₁, h₂⟩, ha₂⟩
  | @decl _ _ _ _ constant x _ ty hx hname hty =>
    obtain ⟨v, t, ht, -, hscopes⟩ := SymbolTable.exists_declare ha hx constant ty x.pos
    exact ⟨_, run_emit_decl.2 ⟨ty, v, t, hname, hty, ht, rfl⟩, hscopes⟩
  | @init _ _ _ _ _ constant x _ ty e hx hname hty he =>
    obtain ⟨v, t, ht, rfl, hscopes⟩ := SymbolTable.exists_declare ha hx constant ty x.pos
    obtain ⟨a₁, h₁, rfl⟩ := Expr.exists_emit ctx (a := { a with symbols := t }) (hscopes ▸ he)
    have hfound : t.find? x.name = some (.storage v) := by rw [SymbolTable.find?_declare ht, if_pos rfl]
    obtain ⟨t₁, ht₁⟩ := SymbolTable.exists_markWritten_iff.2
      (SymbolTable.isSome_find?_of_written (Expr.emitted h₁).written hfound)
    exact ⟨_, run_emit_init.2 ⟨_, v, t, a₁, t₁, hname, hty, ht, h₁, ht₁, rfl⟩, SymbolTable.scopes_markWritten ht₁⟩
  | expr he =>
    obtain ⟨a₁, h₁, rfl⟩ := Expr.exists_emit ctx (ha ▸ he)
    refine ⟨_, run_emit_expr.2 ⟨_, a₁, h₁, rfl⟩, ?_⟩
    split <;> rfl
  | block _ ih =>
    obtain ⟨a₁, h₁, ha₁⟩ := ih hreturns hloop (a := { a with symbols := a.symbols.enterBlock })
      (by rw [SymbolTable.scopes_enterBlock, ha])
    refine ⟨_, run_emit_block.2 ⟨a₁, h₁, rfl⟩, ?_⟩
    have hnested : a₁.symbols.nested ≠ [] := by
      have hlen := (valid_of_emit h₁).length_eq
      intro hnil
      simp [hnil] at hlen
    rw [SymbolTable.scopes_leave hnested, ha₁]
    rfl
  | ifThen hc hty _ ih =>
    obtain ⟨a₁, h₁, rfl⟩ := Expr.exists_emit ctx (ha ▸ hc)
    obtain ⟨a₂, h₂, ha₂⟩ := ih hreturns hloop (a := a₁.push .jz (some 0) _) rfl
    exact ⟨_, run_emit_ifThen.2 ⟨_, a₁, a₂, h₁, hty, h₂, rfl⟩, ha₂⟩
  | ifElse hc hty _ _ ih₂ ih₃ =>
    obtain ⟨a₁, h₁, rfl⟩ := Expr.exists_emit ctx (ha ▸ hc)
    obtain ⟨a₂, h₂, ha₂⟩ := ih₂ hreturns hloop (a := a₁.push .jz (some 0) _) rfl
    obtain ⟨a₃, h₃, ha₃⟩ := ih₃ hreturns hloop (a := (a₂.push .jmp (some 0) _).patch a₁.nextAddress) ha₂
    exact ⟨_, run_emit_ifElse.2 ⟨_, a₁, a₂, a₃, h₁, hty, h₂, h₃, rfl⟩, ha₃⟩
  | loop hc hty _ ih =>
    obtain ⟨a₁, h₁, rfl⟩ := Expr.exists_emit ctx (ha ▸ hc)
    have hreturns' : ({ ctx with loop := some a.nextAddress } : Context).function = returns := hreturns
    obtain ⟨a₂, h₂, ha₂⟩ := ih hreturns' rfl (a := { a₁.push .jz (some 0) _ with breaks := [] }) rfl
    exact ⟨_, run_emit_loop.2 ⟨_, a₁, a₂, h₁, hty, h₂, rfl⟩, by rw [Assembly.symbols_foldl_patch]; exact ha₂⟩
  | leave => exact ⟨_, run_emit_leave.2 ⟨hloop, rfl⟩, ha⟩
  | again =>
    obtain ⟨head, hhead⟩ := Option.isSome_iff_exists.1 hloop
    exact ⟨_, run_emit_again.2 ⟨head, hhead, rfl⟩, ha⟩
  | ret hty => exact ⟨_, run_emit_ret.2 ⟨hreturns ▸ hty, rfl⟩, ha⟩
  | retValue he hty =>
    obtain ⟨a₁, h₁, rfl⟩ := Expr.exists_emit ctx (ha ▸ he)
    exact ⟨_, run_emit_retValue.2 ⟨_, a₁, h₁, hreturns ▸ hty, rfl⟩, rfl⟩

end Stmt

/-! ## Functions -/

/-- Parameters that are declared keep the static rules. -/
theorem Param.declare_of_declaresParams {params : List Param} {types : List Ty} (htypes : List.Forall₂ HasType params types)
    {t t' : SymbolTable} (h : t.DeclaresParams (params.zip types) t') :
    ∃ names, Declare t.current.names params types names ∧ t'.scopes = names :: t.scopes.tail := by
  induction htypes generalizing t with
  | nil =>
    cases h
    exact ⟨_, .nil, SymbolTable.scopes_eq_cons _⟩
  | cons hty _ ih =>
    cases h with
    | cons h₁ h₂ h₃ =>
      obtain ⟨names, hnames, hscopes⟩ := ih h₃
      have h₂ := SymbolTable.scopes_declare_markWritten h₁ h₂
      obtain ⟨hcurrent, htail⟩ := List.cons.inj ((SymbolTable.scopes_eq_cons _).symm.trans h₂)
      rw [hcurrent] at hnames
      rw [htail] at hscopes
      exact ⟨names, .cons hty.1 hty.2 (SymbolTable.names_of_declare h₁) hnames, hscopes⟩

/-- Parameters that keep the static rules can be declared. -/
theorem Param.exists_declaresParams {names names' : Names} {params : List Param} {types : List Ty}
    (h : Declare names params types names') {t : SymbolTable} {outer : Scopes} (ht : t.scopes = names :: outer) :
    List.Forall₂ HasType params types ∧ ∃ t', t.DeclaresParams (params.zip types) t' ∧ t'.scopes = names' :: outer := by
  induction h generalizing t with
  | nil => exact ⟨.nil, t, .nil, ht⟩
  | @cons names _ p _ ty _ hname hty hx _ ih =>
    obtain ⟨v, t₁, h₁, -, ht₁⟩ := SymbolTable.exists_declare ht hx p.constant ty p.name.pos
    have hfound : (t₁.find? p.name.name).isSome := by
      rw [SymbolTable.find?_declare h₁, if_pos rfl]
      rfl
    obtain ⟨t₂, h₂⟩ := SymbolTable.exists_markWritten_iff.2 hfound
    have ht₂ : t₂.scopes = Function.update names p.name.name (some (.var ty p.constant true)) :: outer := by
      obtain ⟨hcurrent, htail⟩ := List.cons.inj (t.scopes_eq_cons.symm.trans ht)
      rw [SymbolTable.scopes_declare_markWritten h₁ h₂, hcurrent, htail]
    obtain ⟨htypes, t₃, h₃, ht₃⟩ := ih ht₂
    exact ⟨.cons ⟨hname, hty⟩ htypes, t₃, .cons h₁ h₂ h₃, ht₃⟩

namespace Function

/-- A function that is emitted keeps the static rules. -/
theorem valid_of_emit {f : Function} {a a' : Assembly} {u : Unit} (h : f.emit.run a = .ok (u, a')) {outer : Names}
    (ha : a.symbols.scopes = [outer]) : ∃ outer', f.Valid outer outer' ∧ a'.symbols.scopes = [outer'] := by
  cases f with
  | defn pos name params target body close =>
    obtain ⟨types, ty, t₁, t₂, a₁, htypes, hty, h₁, h₂, hbody, rfl⟩ := run_emit_defn.1 h
    obtain ⟨hname, ht₁⟩ := SymbolTable.scopes_declareFunction ha h₁
    obtain ⟨locals, hparams, ht₂⟩ := Param.declare_of_declaresParams htypes h₂
    have hbody := Stmt.valid_of_emit hbody
    change Stmt.Valid (some ty) false t₂.scopes body a₁.symbols.scopes at hbody
    rw [SymbolTable.scopes_enterFunction, List.tail_cons, ht₁] at ht₂
    have hlen := hbody.length_eq
    rw [ht₂] at hbody hlen
    obtain ⟨locals', outer', hscopes⟩ := List.length_eq_two.1 hlen
    have hnested : a₁.symbols.nested ≠ [] := by
      intro hnil
      simp [hnil] at hlen
    rw [hscopes] at hbody
    exact ⟨outer', .defn hparams hty hname hbody, by rw [SymbolTable.scopes_leave hnested, hscopes]; rfl⟩
  | fault pos params error => exact (run_emit_fault.1 h).elim

/-- A function that keeps the static rules is emitted. -/
theorem exists_emit {f : Function} {outer outer' : Names} (h : f.Valid outer outer') {a : Assembly}
    (ha : a.symbols.scopes = [outer]) : ∃ a', f.emit.run a = .ok ((), a') ∧ a'.symbols.scopes = [outer'] := by
  cases h with
  | @defn _ _ _ _ _ name _ params types ty _ hparams hty hname hbody =>
    obtain ⟨t₁, h₁⟩ := SymbolTable.exists_declareFunction ha hname ⟨ty, a.nextAddress, types⟩ name.pos
    have ht₁ := (SymbolTable.scopes_declareFunction ha h₁).2
    obtain ⟨htypes, t₂, h₂, ht₂⟩ := Param.exists_declaresParams hparams t₁.scopes_enterFunction
    rw [ht₁] at ht₂
    obtain ⟨a₁, hbody₁, ha₁⟩ := Stmt.exists_emit hbody (a := { a with symbols := t₂ })
      (rfl : (⟨some ty, none⟩ : Context).function = some ty) rfl ht₂
    refine ⟨_, run_emit_defn.2 ⟨types, ty, t₁, t₂, a₁, htypes, hty, h₁, h₂, hbody₁, rfl⟩, ?_⟩
    have hnested : a₁.symbols.nested ≠ [] := by
      intro hnil
      simpa [hnil] using congrArg List.length ha₁
    change a₁.symbols.leave.scopes = _
    rw [SymbolTable.scopes_leave hnested, ha₁]
    rfl

/-- Functions that are emitted keep the static rules. -/
theorem allValid_of_emit {fs : List Function} {a a' : Assembly} {u : Unit}
    (h : (fs.forM emit : Assembling Unit).run a = .ok (u, a')) {outer : Names} (ha : a.symbols.scopes = [outer]) :
    ∃ outer', AllValid outer fs outer' ∧ a'.symbols.scopes = [outer'] := by
  induction fs generalizing a outer with
  | nil =>
    obtain ⟨-, rfl⟩ := run_pure_eq_ok.1 h
    exact ⟨outer, .nil, ha⟩
  | cons f fs ih =>
    obtain ⟨a₁, h₁, h₂⟩ := run_forM_emit_cons.1 h
    obtain ⟨outer₁, hf, ha₁⟩ := valid_of_emit h₁ ha
    obtain ⟨outer₂, hfs, ha₂⟩ := ih h₂ ha₁
    exact ⟨outer₂, .cons hf hfs, ha₂⟩

/-- Functions that keep the static rules are emitted. -/
theorem exists_forM_emit {fs : List Function} {outer outer' : Names} (h : AllValid outer fs outer') {a : Assembly}
    (ha : a.symbols.scopes = [outer]) :
    ∃ a', (fs.forM emit : Assembling Unit).run a = .ok ((), a') ∧ a'.symbols.scopes = [outer'] := by
  induction h generalizing a with
  | nil => exact ⟨a, rfl, ha⟩
  | cons hf _ ih =>
    obtain ⟨a₁, h₁, ha₁⟩ := exists_emit hf ha
    obtain ⟨a₂, h₂, ha₂⟩ := ih ha₁
    exact ⟨a₂, run_forM_emit_cons.2 ⟨a₁, h₁, h₂⟩, ha₂⟩

end Function

/-! ## Compilation units -/

namespace CompilationUnit

/-- The functions of a unit that are emitted keep the static rules. -/
theorem allValid_of_emitFunctions {fs : List Function} {a a' : Assembly} {u : Unit}
    (h : (emitFunctions fs).run a = .ok (u, a')) {outer : Names} (ha : a.symbols.scopes = [outer]) :
    ∃ outer', Function.AllValid outer fs outer' ∧ a'.symbols.scopes = [outer'] := by
  cases fs with
  | nil =>
    obtain ⟨-, rfl⟩ := run_pure_eq_ok.1 (by rwa [emitFunctions] at h)
    exact ⟨outer, .nil, ha⟩
  | cons f fs =>
    obtain ⟨a₁, h₁, rfl⟩ := run_emitFunctions_cons.1 h
    exact Function.allValid_of_emit h₁ ha

/-- The functions of a unit that keep the static rules are emitted. -/
theorem exists_emitFunctions {fs : List Function} {outer outer' : Names} (h : Function.AllValid outer fs outer') {a : Assembly}
    (ha : a.symbols.scopes = [outer]) :
    ∃ a', (emitFunctions fs).run a = .ok ((), a') ∧ a'.symbols.scopes = [outer'] := by
  cases fs with
  | nil =>
    cases h
    exact ⟨a, by rw [emitFunctions]; exact run_pure_eq_ok.2 ⟨rfl, rfl⟩, ha⟩
  | cons f fs =>
    obtain ⟨a₁, h₁, ha₁⟩ := Function.exists_forM_emit h (a := a.push .jmp (some 0) f.pos) ha
    exact ⟨_, run_emitFunctions_cons.2 ⟨a₁, h₁, rfl⟩, ha₁⟩

/-- The rules know as much of `main` as its call asks for. -/
theorem find?_main {t : SymbolTable} {outer : Names} (ht : t.scopes = [outer]) :
    (∀ f, t.find? "main" = some (.function f) → f.params = []) ↔
      ∀ params returns, outer "main" = some (.function params returns) → params = [] := by
  have hfind : t.scopes.find? "main" = outer "main" := by
    rw [ht, Scopes.find?_cons]
    exact Option.or_none
  rw [← hfind]
  constructor
  · intro h params returns hmain
    obtain ⟨f, hf, rfl, -⟩ := SymbolTable.find?_scopes_eq_function.1 hmain
    exact h f hf
  · intro h f hf
    exact h _ _ (SymbolTable.find?_scopes_eq_function.2 ⟨f, hf, rfl, rfl⟩)

/-- A unit whose end was reached is emitted exactly if it keeps the static rules. -/
theorem exists_emit_iff {u : CompilationUnit} {pos : Position} (hend : u.ending = .ok pos) :
    (∃ a, u.emit.run .empty = .ok ((), a)) ↔ u.Valid := by
  constructor
  · rintro ⟨a, h⟩
    obtain ⟨a₁, a₂, _, h₁, h₂, -, hmain, rfl⟩ := run_emit.1 h
    have hglobals := Stmt.valid_of_emit h₁
    change Stmt.Valid none false [fun _ => none] u.globals a₁.symbols.scopes at hglobals
    obtain ⟨outer, ha₁⟩ := List.length_eq_one_iff.1 hglobals.length_eq
    obtain ⟨outer', hfs, ha₂⟩ := allValid_of_emitFunctions h₂ ha₁
    exact .mk (ha₁ ▸ hglobals) hfs ((find?_main ha₂).1 hmain)
  · rintro ⟨hglobals, hfs, hmain⟩
    obtain ⟨a₁, h₁, ha₁⟩ := Stmt.exists_emit hglobals (rfl : Context.outermost.function = none) rfl
      (a := .empty) SymbolTable.scopes_empty
    obtain ⟨a₂, h₂, ha₂⟩ := exists_emitFunctions hfs ha₁
    exact ⟨_, run_emit.2 ⟨a₁, a₂, pos, h₁, h₂, hend, (find?_main ha₂).2 hmain, rfl⟩⟩

end CompilationUnit

/-! ## Texts -/

/-- A statement that keeps the static rules could be read as a whole. -/
theorem Stmt.Valid.whole {returns : Option Ty} {inLoop : Bool} {Γ Γ' : Scopes} {s : Stmt}
    (h : Valid returns inLoop Γ s Γ') : s.Whole := by
  induction h with
  | nil | empty | leave | again | ret => trivial
  | seq _ _ ih ih' => exact ⟨ih, ih'⟩
  | decl => exact fun _ he => nomatch he
  | init _ _ _ h =>
    rintro e ⟨⟩
    exact h.whole
  | expr h => exact h.whole
  | block _ ih => exact ih
  | ifThen hc _ _ ih => exact ⟨hc.whole, ih⟩
  | ifElse hc _ _ _ ih ih' => exact ⟨hc.whole, ih, ih'⟩
  | loop hc _ _ ih => exact ⟨hc.whole, ih⟩
  | retValue h => exact h.whole

/-- A program is assembled exactly if the steps succeed. -/
theorem Assembling.assemble_eq_ok {m : Assembling Unit} {p : Program} :
    m.assemble = .ok p ↔ ∃ a, m.run .empty = .ok ((), a) ∧ p = a.program := by
  unfold assemble
  cases m.run .empty with
  | error error => simp
  | ok r =>
    obtain ⟨⟨⟩, a⟩ := r
    simp [eq_comm]

/-- The stream of a source has an end exactly if the source was cut into tokens to its end. -/
theorem TokenStream.ofSource_eq {s : Source} {ts : List Token} {pos : Position} :
    ofSource s = (done pos).prepend ts ↔ s.lex.ending = .ok pos ∧ s.lex.tokens = ts := by
  unfold ofSource ofLexed
  constructor
  · intro h
    cases hend : s.lex.ending with
    | ok pos' =>
      rw [hend] at h
      obtain ⟨vs, hvs, rfl⟩ := Grammar.eq_prepend_done h.symm
      cases vs with
      | nil =>
        cases hvs
        exact ⟨rfl, (List.append_nil _).symm⟩
      | cons => cases hvs
    | error e =>
      rw [hend] at h
      obtain ⟨vs, hvs, rfl⟩ := Grammar.eq_prepend_done h.symm
      cases vs <;> cases hvs
  · rintro ⟨hend, rfl⟩
    rw [hend]
    rfl

/-- A text of statements is compiled to what is emitted for the tree that the grammar derives from it. -/
theorem compile_statements_eq_ok {s : Source} {p : Program} :
    compile .statements s = .ok p ↔
      ∃ pos S a, s.lex.ending = .ok pos ∧ Grammar.Statements s.lex.tokens S ∧
        (S.emit .outermost).run .empty = .ok ((), a) ∧ p = a.program := by
  change Assembling.assemble _ = _ ↔ _
  rw [Assembling.assemble_eq_ok]
  constructor
  · rintro ⟨a, h, hp⟩
    obtain ⟨ts, pos, hsource, hS⟩ := Stmt.statements_of_parseAll _ (Stmt.valid_of_emit h).whole
    obtain ⟨hend, rfl⟩ := TokenStream.ofSource_eq.1 hsource
    exact ⟨pos, _, a, hend, hS, h, hp⟩
  · rintro ⟨pos, S, a, hend, hS, h, hp⟩
    have hshaped : Grammar.Shaped s.lex.tokens := fun _ => s.wellShaped_of_mem_lex
    rw [TokenStream.ofSource_eq.2 ⟨hend, rfl⟩, hS.parseAll_eq pos hshaped]
    exact ⟨a, h, hp⟩

/-- A program text is compiled to what is emitted for the unit that the grammar derives from it. -/
theorem compile_program_eq_ok {s : Source} {p : Program} :
    compile .program s = .ok p ↔
      ∃ pos u a, s.lex.ending = .ok pos ∧ Grammar.ProgramText s.lex.tokens pos u ∧
        u.emit.run .empty = .ok ((), a) ∧ p = a.program := by
  change Assembling.assemble _ = _ ↔ _
  rw [Assembling.assemble_eq_ok]
  constructor
  · rintro ⟨a, h, hp⟩
    obtain ⟨_, _, pos, -, -, hending, -⟩ := CompilationUnit.run_emit.1 h
    obtain ⟨ts, hsource, hu⟩ := CompilationUnit.programText_of_parse hending
    obtain ⟨hend, rfl⟩ := TokenStream.ofSource_eq.1 hsource
    exact ⟨pos, _, a, hend, hu, h, hp⟩
  · rintro ⟨pos, u, a, hend, hu, h, hp⟩
    have hshaped : Grammar.Shaped s.lex.tokens := fun _ => s.wellShaped_of_mem_lex
    rw [TokenStream.ofSource_eq.2 ⟨hend, rfl⟩, hu.parse_eq hshaped]
    exact ⟨a, h, hp⟩

/-- The grammar derives one list of statements from a text. -/
theorem Grammar.Statements.unique {ts : List Token} (hs : Shaped ts) {S S' : Stmt} (h : Statements ts S)
    (h' : Statements ts S') : S' = S :=
  (Prod.mk.inj ((h'.parseAll_eq .start hs).symm.trans (h.parseAll_eq .start hs))).1

/-- The end of a program text is the end of its unit. -/
theorem Grammar.ProgramText.ending_eq {ts : List Token} {pos : Position} {u : CompilationUnit} (h : ProgramText ts pos u) :
    u.ending = .ok pos := by
  cases h
  rfl

/-- The grammar derives one unit from a text. -/
theorem Grammar.ProgramText.unique {ts : List Token} (hs : Shaped ts) {pos : Position} {u u' : CompilationUnit}
    (h : ProgramText ts pos u) (h' : ProgramText ts pos u') : u' = u :=
  (Prod.mk.inj ((h'.parse_eq hs).symm.trans (h.parse_eq hs))).1

/-- Where the grammar derives a tree from the tokens of a text, the text is compiled exactly if that tree keeps the static rules.
Where it derives none, the text is not compiled. -/
theorem acceptance_exact (s : Source) :
    (∀ pos S, s.lex.ending = .ok pos → Grammar.Statements s.lex.tokens S →
      ((∃ p, compile .statements s = .ok p) ↔ ∃ Γ, Stmt.Valid none false [fun _ => none] S Γ)) ∧
    (∀ pos u, s.lex.ending = .ok pos → Grammar.ProgramText s.lex.tokens pos u →
      ((∃ p, compile .program s = .ok p) ↔ u.Valid)) ∧
    (∀ p, compile .statements s = .ok p → ∃ pos S, s.lex.ending = .ok pos ∧ Grammar.Statements s.lex.tokens S) ∧
    (∀ p, compile .program s = .ok p → ∃ pos u, s.lex.ending = .ok pos ∧ Grammar.ProgramText s.lex.tokens pos u) := by
  have hshaped : Grammar.Shaped s.lex.tokens := fun _ => s.wellShaped_of_mem_lex
  refine ⟨fun pos S hend hS => ⟨?_, ?_⟩, fun pos u hend hu => ⟨?_, ?_⟩, ?_, ?_⟩
  · rintro ⟨p, hp⟩
    obtain ⟨_, S', a, -, hS', h, -⟩ := compile_statements_eq_ok.1 hp
    obtain rfl := hS.unique hshaped hS'
    exact ⟨_, Stmt.valid_of_emit h⟩
  · rintro ⟨Γ, hΓ⟩
    obtain ⟨a, h, -⟩ := Stmt.exists_emit hΓ (rfl : Context.outermost.function = none) rfl (a := .empty) rfl
    exact ⟨_, compile_statements_eq_ok.2 ⟨pos, S, a, hend, hS, h, rfl⟩⟩
  · rintro ⟨p, hp⟩
    obtain ⟨pos', u', a, hend', hu', h, -⟩ := compile_program_eq_ok.1 hp
    obtain rfl : pos = pos' := Except.ok.inj (hend.symm.trans hend')
    obtain rfl := hu.unique hshaped hu'
    exact (CompilationUnit.exists_emit_iff hu'.ending_eq).1 ⟨a, h⟩
  · intro hvalid
    obtain ⟨a, h⟩ := (CompilationUnit.exists_emit_iff hu.ending_eq).2 hvalid
    exact ⟨_, compile_program_eq_ok.2 ⟨pos, u, a, hend, hu, h, rfl⟩⟩
  · intro p hp
    obtain ⟨pos, S, -, hend, hS, -⟩ := compile_statements_eq_ok.1 hp
    exact ⟨pos, S, hend, hS⟩
  · intro p hp
    obtain ⟨pos, u, -, hend, hu, -⟩ := compile_program_eq_ok.1 hp
    exact ⟨pos, u, hend, hu⟩

/-- A function that calls itself with a variable that has a value. -/
def Sample.assignedArgument : Source := .ofString "fn f(n: int) -> int \x7b let m: int = n; return f(m); \x7d"

/-- The same with a variable that has none. -/
def Sample.unassignedArgument : Source := .ofString "fn f(n: int) -> int \x7b let m: int; return f(m); \x7d"

/-- A variable with a value may be an argument, and one without may not. -/
theorem acceptance_exact_argument : (∃ pos u, Grammar.ProgramText Sample.assignedArgument.lex.tokens pos u ∧ u.Valid) ∧
    ∃ pos u, Grammar.ProgramText Sample.unassignedArgument.lex.tokens pos u ∧ ¬ u.Valid := by
  constructor
  · have hok : (compile .program Sample.assignedArgument).isOk := by
      rw [Sample.assignedArgument, Source.ofString_ofList]
      decide +kernel
    obtain ⟨p, hp⟩ := Assembling.exists_eq_ok hok
    obtain ⟨pos, u, hend, hu⟩ := (acceptance_exact Sample.assignedArgument).2.2.2 p hp
    exact ⟨pos, u, hu, ((acceptance_exact Sample.assignedArgument).2.1 pos u hend hu).1 ⟨p, hp⟩⟩
  · obtain ⟨hbad, hends⟩ : (compile .program Sample.unassignedArgument).isOk = false ∧
        (CompilationUnit.parse (.ofSource Sample.unassignedArgument)).1.ending.isOk := by
      rw [Sample.unassignedArgument, Source.ofString_ofList]
      decide +kernel
    obtain ⟨pos, hpos⟩ := Assembling.exists_eq_ok hends
    obtain ⟨ts, hts, hu⟩ := CompilationUnit.programText_of_parse hpos
    obtain ⟨hend, rfl⟩ := TokenStream.ofSource_eq.1 hts
    refine ⟨pos, _, hu, fun hvalid => ?_⟩
    obtain ⟨p, hp⟩ := ((acceptance_exact Sample.unassignedArgument).2.1 pos _ hend hu).2 hvalid
    rw [hp] at hbad
    cases hbad

end C0Stack
