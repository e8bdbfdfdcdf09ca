import C0Stack.Proofs.Storage.Units

/-!
# Constants

From its declaration to the end of its scope the slot of a constant is written once, by the store of the value that it is declared
with (`Emission.Stands.exists_writes_constant`), and that of a constant parameter is never written. No other variable has the same slot
in the meantime, since the variables in scope are kept apart, and no assignment to the constant is accepted.
-/

namespace C0Stack

open Assembling

theorem Context.isAccess_storeOp (ctx : Context) (v : Variable) : (ctx.storeOp v).isAccess = true := by
  unfold storeOp
  split <;> rfl

theorem Context.storeOp_ne_loadOp (ctx : Context) (v w : Variable) : ctx.storeOp v ≠ ctx.loadOp w := by
  unfold storeOp loadOp
  split <;> split <;> nofun

/-- An instruction that stores in the slot of the one variable and in that of the other writes one place only. -/
theorem Context.Writes.location_eq {ctx : Context} {lines : List CodeLine} {v w : Variable} {n : Nat} {line : CodeLine}
    (h : ctx.Writes lines v.scope v.slot n) (hline : lines[n]? = some line)
    (hi : line.instruction = ⟨ctx.storeOp w, some w.slot⟩) : ctx.location v = ctx.location w := by
  obtain ⟨line', hline', hi'⟩ := h
  rw [hline] at hline'
  cases hline'
  exact Context.location_eq_of_store (hi'.symm.trans hi)

/-! ## The scope of a constant -/

/-- An expression does not write the constants that it sees. -/
theorem Expr.not_writes_constant {ctx : Context} {lines : List CodeLine} {e : Expr} {ty : Ty} {a a' : Assembly} {d n : Nat}
    {x : String} {v : Variable} (hrun : (e.emit ctx).run a = .ok (ty, a')) (hs : StandsAt lines a.nextAddress (e.code ctx a.symbols))
    (ht : a.symbols.Separate ctx) (hx : a.symbols.declared? d x = some (.storage v)) (hv : v.constant = true)
    (hn : a.nextAddress ≤ n) (hlt : n < a'.nextAddress) : ¬ ctx.Writes lines v.scope v.slot n := by
  intro hwrites
  obtain ⟨line, hline, hi⟩ := hwrites
  have hop : line.instruction.op.isAccess = true := by
    rw [hi]
    exact ctx.isAccess_storeOp v
  obtain ⟨k, y, b, w, haccess, hmade, hallowed⟩ := exists_accesses hrun hs hn hlt hline hop
  cases k with
  | read => exact absurd (congrArg Instruction.op (hi.symm.trans hmade.instruction)) (ctx.storeOp_ne_loadOp v w)
  | write =>
    have hw := haccess.written_eq
    obtain ⟨flag, hx⟩ := SymbolTable.declared?_storage_of_written hw hx
    obtain ⟨d', hy, -⟩ := SymbolTable.find?_eq_some.1 hmade.found
    have hlocation : ctx.location { v with initialized := flag } = ctx.location w :=
      Context.Writes.location_eq ⟨line, hline, hi⟩ hline hmade.instruction
    obtain ⟨rfl, rfl⟩ := (ht.of_written hw).distinct _ _ _ _ _ _ hx hy hlocation
    rw [hx] at hy
    cases hy
    exact Bool.noConfusion (hv.symm.trans hallowed)

namespace Emission

variable {calls : Nat → Option Signature} {lines : List CodeLine}

/-- In front of an expression of a statement storage is separate. -/
theorem Evaluates.separate {E : Emission} {e : Expr} {a : Assembly} (h : E.Evaluates e a) (ht : E.before.symbols.Separate E.ctx) :
    a.symbols.Separate E.ctx := by
  cases h with
  | init _ hd => exact ht.declare hd
  | _ => exact ht

/-- A statement in the scope of a constant does not write it. -/
theorem Stands.not_writes_constant {E : Emission} (h : E.Stands calls lines) (ht : E.before.symbols.Separate E.ctx) {d n : Nat}
    {x : String} {v : Variable} (hx : E.before.symbols.declared? d x = some (.storage v)) (hv : v.constant = true)
    (hn : E.before.nextAddress ≤ n) (hlt : n < E.after.nextAddress) : ¬ E.ctx.Writes lines v.scope v.slot n := by
  intro hwrites
  obtain ⟨line, hline, hi⟩ := id hwrites
  have horigin : Origin lines E n line.instruction := origin_of_stands h hn hlt hline
  cases horigin with
  | part E' hhas hn' hlt' =>
    have hsmaller := hhas.sizeOf_lt
    obtain ⟨flag, hx'⟩ := (hhas.evolves (d := d) h).keeps x v hx
    refine Stands.not_writes_constant (h.of_has hhas) (hhas.separate h.structured ht) hx' hv hn' hlt' ?_
    rw [Context.writes_eq (congrArg Option.isSome hhas.function_eq)]
    exact hwrites
  | value e ty a a' heval hrun hs hn' hlt' =>
    have hevolves : Assembly.Evolves (E.ctx.Writes lines) d E.before a := heval.evolves
    obtain ⟨flag, hx'⟩ := hevolves.keeps x v hx
    exact Expr.not_writes_constant hrun hs (heval.separate ht) hx' hv hn' hlt' hwrites
  | init y w b hinit _ hstore =>
    cases hinit with
    | init _ hd => exact ht.location_ne_of_declare hd hx (hwrites.location_eq hline hstore)
  | control hcontrol _ =>
    rw [hi] at hcontrol
    exact Bool.noConfusion ((E.ctx.isAccess_storeOp v).symm.trans hcontrol)
termination_by sizeOf E.stmt

/-- From the declaration of a constant to the end of its scope one instruction writes it, the last one of the declaration. -/
theorem Stands.exists_writes_constant {E F : Emission} (h : E.Stands calls lines) (ht : E.before.symbols.Separate E.ctx)
    (hfirst : E.StartsWith F) (hsingle : F.stmt.Single) {x : Ident} {v : Variable} (hF : F.Declares x v) (hv : v.constant = true) :
    ∃ n, E.Holds n ∧ n + 1 = F.after.nextAddress ∧ ∀ m, E.Holds m → (E.ctx.Writes lines v.scope v.slot m ↔ m = n) := by
  have hstands := h.of_has hfirst.has
  cases hfirst with
  | @first ctx s rest a a₁ a₂ h₁ h₂ =>
    have hrest := h.of_has (.rest h₁ h₂)
    have hseparate := Has.separate (.rest h₁ h₂) h.structured ht
    cases hF with
    | @decl _ pos constant _ target init ty _ t _ _ hname hd =>
      obtain rfl : v.constant = constant := by
        obtain ⟨-, rfl, -⟩ := SymbolTable.declare_eq_ok.1 hd
        rfl
      rw [Stmt.Single] at hsingle
      cases init with
      | none => cases hsingle hv
      | some e =>
        have hnew : t.declared? a.symbols.depth x.name = some (.storage v) := by
          rw [SymbolTable.declared?_declare hd, if_pos ⟨rfl, rfl⟩]
        have run : ((Stmt.decl pos v.constant x target (some e)).emit ctx).run a = .ok ((), a₁) := h₁
        obtain ⟨flag, hx⟩ := Declares.declared?_after (.decl hname hd) h₁
        obtain ⟨ty', v', t', b, t₁, hname', hty, hd', hval, ht₁, rfl⟩ := Stmt.run_emit_init.1 run
        obtain rfl := Option.some.inj (hname.symm.trans hname')
        obtain ⟨rfl, rfl⟩ := Prod.mk.inj (Except.ok.inj (hd.symm.trans hd'))
        obtain ⟨exit, -, hplaced⟩ := hstands.placed
        have hcode := hplaced _ _ (.init hty hd (Expr.emitted hval) ht₁)
        have hnext : ({ b.push (ctx.storeOp v) (some v.slot) pos with symbols := t₁ } : Assembly).nextAddress = b.nextAddress + 1 :=
          b.nextAddress_push ..
        have hfront : a.nextAddress ≤ b.nextAddress := (Expr.evolves (d := 0) hval hcode.left).le
        have hend := (evolves_of_stands (d := 0) hrest).le
        refine ⟨b.nextAddress, ⟨hfront, Nat.le_trans (Nat.le_of_eq hnext.symm) hend⟩, hnext.symm, ?_⟩
        intro m hm
        rcases Nat.lt_trichotomy m b.nextAddress with hbefore | rfl | hbehind
        · exact iff_of_false (Expr.not_writes_constant hval hcode.left (ht.declare hd) hnew hv hm.1 hbefore) (Nat.ne_of_lt hbefore)
        · exact iff_of_true ⟨_, ((Expr.emitted hval).stands_behind hcode).getElem?_head, rfl⟩ rfl
        · refine iff_of_false ?_ (Nat.ne_of_gt hbehind)
          exact hrest.not_writes_constant (v := { v with initialized := flag }) hseparate hx hv
            (Nat.le_trans (Nat.le_of_eq hnext) hbehind) hm.2

/-! ## Declarations in sequence -/

/-- What declarations access is declared behind them. -/
theorem exists_declared?_after {ctx : Context} {s : Stmt} {a a' : Assembly} (h : Stands calls lines ⟨ctx, s, a, a'⟩)
    (hs : s.Declarative) {n : Nat} {line : CodeLine} (hn : a.nextAddress ≤ n) (hlt : n < a'.nextAddress)
    (hline : lines[n]? = some line) (hop : line.instruction.op.isAccess = true) :
    ∃ d x w k, a'.symbols.declared? d x = some (.storage w) ∧ line.instruction = ⟨Access.op ctx w k, some w.slot⟩ := by
  induction s generalizing a a' with
  | seq first rest ih₁ ih₂ =>
    obtain ⟨a₁, h₁, h₂⟩ := Stmt.run_emit_seq.1 h.run
    have hrest := h.of_has (.rest h₁ h₂)
    rcases Nat.lt_or_ge n a₁.nextAddress with hmid | hmid
    · obtain ⟨d, x, w, k, hx, hi⟩ := ih₁ (h.of_has (.first h₁ h₂)) hs.1 hn hmid
      obtain ⟨flag, hx⟩ := (evolves_of_stands (d := d) hrest).keeps x w hx
      exact ⟨d, x, { w with initialized := flag }, k, hx, by cases k <;> exact hi⟩
    · exact ih₂ hrest hs.2 hmid hlt
  | nil =>
    have run : (Stmt.nil.emit ctx).run a = .ok ((), a') := h.run
    obtain ⟨-, rfl⟩ := run_pure_eq_ok.1 (by rwa [Stmt.emit_nil] at run)
    exact absurd hlt (Nat.not_lt.2 hn)
  | decl pos constant x target init =>
    have horigin := origin_of_stands h hn hlt hline
    cases horigin with
    | part E' hhas => cases hhas
    | value e ty b b' heval hrun hstands hn' hlt' =>
      obtain ⟨k, y, c, w, haccess, hmade, -⟩ := Expr.exists_accesses hrun hstands hn' hlt' hline hop
      obtain ⟨d, hy, -⟩ := SymbolTable.find?_eq_some.1 hmade.found
      cases heval with
      | init hname hd =>
        have hwritten := (written_of_init h.run hname hd).trans haccess.written_eq.symm
        obtain ⟨flag, hy⟩ := SymbolTable.declared?_storage_of_written hwritten hy
        refine ⟨d, y.name, { w with initialized := flag }, k, hy, ?_⟩
        cases k <;> exact hmade.instruction
    | init y w b hinit hb hi =>
      cases hinit with
      | init hname hd =>
        have hnew := SymbolTable.declared?_declare hd a.symbols.depth x.name
        rw [if_pos ⟨rfl, rfl⟩] at hnew
        obtain ⟨flag, hnew⟩ := SymbolTable.declared?_storage_of_written (written_of_init h.run hname hd) hnew
        exact ⟨_, x.name, { w with initialized := flag }, .write, hnew, hi⟩
    | control hcontrol _ => exact Bool.noConfusion (hop.symm.trans hcontrol)
  | _ => exact hs.elim

/-- The parts of a list of declarations are declarations in the same scope, and the lists that end where it ends. -/
structure Declaring (G E : Emission) : Prop where
  declarative : E.stmt.Declarative
  ctx_eq : E.ctx = G.ctx
  depth_eq : E.before.symbols.depth = G.before.symbols.depth
  place : E.stmt.Listed ∧ E.after = G.after ∨ E.stmt.Single

/-- The parts of a list of declarations are like this. -/
theorem Stands.declaring {G E : Emission} (h : G.Stands calls lines) (hs : G.stmt.Declarative) (hl : G.stmt.Listed)
    (hE : G.Covers E) : G.Declaring E := by
  induction hE with
  | refl => exact ⟨hs, rfl, rfl, .inl ⟨hl, rfl⟩⟩
  | tail hcovers hlast ih =>
    obtain ⟨hs, hctx, hdepth, hplace⟩ := ih
    cases hlast with
    | first h₁ h₂ =>
      rcases hplace with ⟨hl, -⟩ | hsingle
      · rw [Stmt.Listed] at hl
        exact ⟨hs.1, hctx, hdepth, .inr hl.1⟩
      · simp [Stmt.Single] at hsingle
    | rest h₁ h₂ =>
      obtain ⟨code, waiting, hasm⟩ := Stmt.emitted ((h.of_covers hcovers).of_has (.first h₁ h₂)).structured h₁
      rcases hplace with ⟨hl, hafter⟩ | hsingle
      · rw [Stmt.Listed] at hl
        exact ⟨hs.2, hctx, (hasm.compiled 0).depth_eq.trans hdepth, .inl ⟨hl.2, hafter⟩⟩
      · simp [Stmt.Single] at hsingle
    | _ => exact hs.elim

/-- What stands in front of one of the declarations accesses what is declared in front of it. -/
theorem exists_declared?_before {G E : Emission} (h : G.Stands calls lines) (hs : G.stmt.Declarative) (hl : G.stmt.Listed)
    (hE : G.Covers E) {n : Nat} {line : CodeLine} (hn : G.before.nextAddress ≤ n) (hlt : n < E.before.nextAddress)
    (hline : lines[n]? = some line) (hop : line.instruction.op.isAccess = true) :
    ∃ d x w k, E.before.symbols.declared? d x = some (.storage w) ∧ line.instruction = ⟨Access.op E.ctx w k, some w.slot⟩ := by
  induction hE with
  | refl => exact absurd hlt (Nat.not_lt.2 hn)
  | @tail P E hcovers hlast ih =>
    have hP := h.of_covers hcovers
    have hdecls := (h.declaring hs hl hcovers).declarative
    cases hlast with
    | first => exact ih hlt
    | @rest ctx first rest a a₁ a₂ h₁ h₂ =>
      have hfirst := hP.of_has (.first h₁ h₂)
      rcases Nat.lt_or_ge n a.nextAddress with hfront | hbehind
      · obtain ⟨d, x, w, k, hx, hi⟩ := ih hfront
        obtain ⟨flag, hx⟩ := (evolves_of_stands (d := d) hfirst).keeps x w hx
        exact ⟨d, x, { w with initialized := flag }, k, hx, by cases k <;> exact hi⟩
      · exact exists_declared?_after hfirst hdecls.1 hbehind hlt hline hop
    | _ => exact hdecls.elim

/-- In front of the declaration of a constant outside functions nothing writes its slot. -/
theorem not_writes_before {G F : Emission} (h : G.Stands calls lines) (hs : G.stmt.Declarative) (hl : G.stmt.Listed)
    (ht : G.before.symbols.Separate G.ctx) (hF : G.Covers F) {x : Ident} {v : Variable} (hdecl : F.Declares x v) {n : Nat}
    (hn : G.before.nextAddress ≤ n) (hlt : n < F.before.nextAddress) : ¬ F.ctx.Writes lines v.scope v.slot n := by
  intro hwrites
  obtain ⟨line, hline, hi⟩ := id hwrites
  have hop : line.instruction.op.isAccess = true := by
    rw [hi]
    exact F.ctx.isAccess_storeOp v
  obtain ⟨d, y, w, k, hy, hi'⟩ := exists_declared?_before h hs hl hF hn hlt hline hop
  have hseparate := (separate_of_covers hF h.structured ht).1
  cases k with
  | read => exact absurd (congrArg Instruction.op (hi.symm.trans hi')) (F.ctx.storeOp_ne_loadOp v w)
  | write =>
    cases hdecl with
    | decl _ hd => exact hseparate.location_ne_of_declare hd hy (hwrites.location_eq hline hi').symm

/-! ## Constants of a program -/

/-- Of the code from the declaration of a constant to the end of the list of statements that it stands in, one instruction stores in
the slot of the constant, the last one of the declaration. -/
def KeepsConstants (p : Program) (emits : Emission → Prop) : Prop :=
  ∀ F x v, emits F → F.Declares x v → v.constant = true → ∃ E n, emits E ∧ E.StartsWith F ∧ E.Holds n ∧
    n + 1 = F.after.nextAddress ∧ ∀ m, E.Holds m → (p.instructions[m]? = some ⟨E.ctx.storeOp v, some v.slot⟩ ↔ m = n)

/-- Statements keep their constants. -/
theorem Stands.keepsConstants {E₀ : Emission} {p : Program} (h : E₀.Stands calls p.lines.toList)
    (ht : E₀.before.symbols.Separate E₀.ctx) (hl : E₀.stmt.Listed) : KeepsConstants p E₀.Covers := by
  intro F x v hF hdecl hv
  obtain ⟨hplace, -⟩ := place_of_covers hF hl h.structured
  obtain ⟨hsingle, E, hE, hfirst⟩ := hplace.exists_startsWith hdecl
  obtain ⟨n, hn, hlast, honly⟩ := (h.of_covers hE).exists_writes_constant (separate_of_covers hE h.structured ht).1 hfirst hsingle
    hdecl hv
  exact ⟨E, n, hE, hfirst, hn, hlast, fun m hm => Program.getElem?_instructions.trans (honly m hm)⟩

end Emission

namespace CompilationUnit.Placed

variable {u : CompilationUnit} {f : Function} {g : Assembly} {E F : Emission} {calls : Nat → Option Signature} {p : Program}

/-- A unit keeps the constants of its statements. -/
theorem keepsConstants (h : u.Placed g calls p.lines.toList) : Emission.KeepsConstants p u.Emits := by
  intro F x v hF hdecl hv
  obtain ⟨E₀, hbegins, hcovers⟩ := hF
  obtain ⟨E, n, hE, hn⟩ := (h.stands E₀ hbegins).keepsConstants (h.separate hbegins) (h.listed E₀ hbegins) F x v hcovers hdecl hv
  exact ⟨E, n, ⟨E₀, hbegins, hE⟩, hn⟩

/-- A declaration outside functions starts the list of those from there on. -/
theorem exists_startsWith (h : u.Placed g calls p.lines.toList) (hF : Emission.Covers ⟨.outermost, u.globals, .empty, g⟩ F)
    {x : Ident} {v : Variable} (hdecl : F.Declares x v) :
    F.stmt.Single ∧ ∃ E, Emission.Covers ⟨.outermost, u.globals, .empty, g⟩ E ∧ E.StartsWith F ∧ E.ctx = .outermost ∧
      E.before.symbols.depth = 0 ∧ E.after = g := by
  have hstands := h.stands _ h.begins_globals
  have hl := h.listed _ h.begins_globals
  obtain ⟨hsingle, E, hE, hfirst⟩ := (Emission.place_of_covers hF hl hstands.structured).1.exists_startsWith hdecl
  obtain ⟨-, hctx, hdepth, ⟨-, hafter⟩ | hlist⟩ := hstands.declaring h.declarative hl hE
  · exact ⟨hsingle, E, hE, hfirst, hctx, hdepth, hafter⟩
  · cases hfirst
    simp [Stmt.Single] at hlist

/-- Of the declarations outside functions, one instruction stores in the slot of a constant. -/
theorem store_global_iff (h : u.Placed g calls p.lines.toList) (hF : Emission.Covers ⟨.outermost, u.globals, .empty, g⟩ F)
    {x : Ident} {v : Variable} (hdecl : F.Declares x v) (hv : v.constant = true) :
    ∃ n < g.nextAddress, n + 1 = F.after.nextAddress ∧
      ∀ m < g.nextAddress, p.instructions[m]? = some ⟨.sto, some v.slot⟩ ↔ m = n := by
  have hstands := h.stands _ h.begins_globals
  have ht := h.separate h.begins_globals
  obtain ⟨hsingle, E, hE, hfirst, hctx, -, hafter⟩ := h.exists_startsWith hF hdecl
  obtain ⟨n, hn, hlast, honly⟩ := (hstands.of_covers hE).exists_writes_constant
    (Emission.separate_of_covers hE hstands.structured ht).1 hfirst hsingle hdecl hv
  rw [Emission.Holds, hafter] at hn
  have hwrites : ∀ {ctx : Context} {m : Nat}, ctx = .outermost →
      (p.instructions[m]? = some ⟨.sto, some v.slot⟩ ↔ ctx.Writes p.lines.toList v.scope v.slot m) := by
    rintro _ m rfl
    rw [Program.getElem?_instructions, Context.Writes]
    simp [Context.outermost]
  refine ⟨n, hn.2, hlast, fun m hm => ?_⟩
  rcases Nat.lt_or_ge m E.before.nextAddress with hfront | hbehind
  · refine iff_of_false (fun hi => ?_) (Nat.ne_of_lt (Nat.lt_of_lt_of_le hfront hn.1))
    have hl := h.listed _ h.begins_globals
    refine Emission.not_writes_before hstands h.declarative hl ht hF hdecl (Nat.zero_le m) ?_ ?_
    · rw [hfirst.before_eq]
      exact hfront
    · exact (hwrites (hstands.declaring h.declarative hl hF).ctx_eq).1 hi
  · exact (hwrites hctx).trans (honly m ⟨hbehind, hafter ▸ hm⟩)

/-- The variables outside functions are still declared where the functions begin. -/
theorem exists_declared? (h : u.Placed g calls p.lines.toList) (hF : Emission.Covers ⟨.outermost, u.globals, .empty, g⟩ F)
    {x : Ident} {v : Variable} (hdecl : F.Declares x v) :
    ∃ flag, v.scope = .outermost ∧ g.symbols.declared? 0 x.name = some (.storage { v with initialized := flag }) := by
  have hstands := h.stands _ h.begins_globals
  obtain ⟨-, E, hE, hfirst, -, hdepth, hafter⟩ := h.exists_startsWith hF hdecl
  obtain ⟨flag, hx⟩ := hfirst.declared?_after (hstands.of_covers hE) hdecl
  refine ⟨flag, ?_, ?_⟩
  · cases hfirst
    cases hdecl with
    | decl _ hd =>
      obtain ⟨-, rfl, -⟩ := SymbolTable.declare_eq_ok.1 hd
      exact SymbolTable.scope_eq_outermost.2 (List.eq_nil_of_length_eq_zero hdepth)
  · rw [hdepth, hafter] at hx
    exact hx

/-- No function stores in the slot of a constant declared outside. -/
theorem ne_store_global (h : u.Placed g calls p.lines.toList) (hF : Emission.Covers ⟨.outermost, u.globals, .empty, g⟩ F) {x : Ident}
    {v : Variable} (hdecl : F.Declares x v) (hv : v.constant = true) (n : Nat) : p.instructions[n]? ≠ some ⟨.stog, some v.slot⟩ := by
  intro hi
  obtain ⟨line, hline, hi⟩ := Program.getElem?_instructions.1 hi
  obtain ⟨E, hE, hn, hlt⟩ := h.exists_begins n line hline (by rw [hi]; rfl)
  rcases hE.cases h.globals with rfl | ⟨f, hE'⟩
  · -- outside functions the slots are those of the current frame
    obtain ⟨d, y, w, k, -, hi'⟩ := Emission.exists_declared?_after (h.stands _ hE) h.declarative hn hlt hline (by rw [hi]; rfl)
    have hop := congrArg Instruction.op (hi.symm.trans hi')
    cases k <;> simp [Access.op, Context.loadOp, Context.storeOp, Context.isRemote, Context.outermost] at hop
  · obtain ⟨-, a, hopens, -, hevolves, -⟩ := h.opens hE'
    obtain ⟨flag, hscope, hx⟩ := h.exists_declared? hF hdecl
    obtain ⟨flag', hx⟩ := hevolves.keeps x.name _ hx
    refine (h.stands E hE).not_writes_constant (h.separate hE) ((hopens.global_iff _ _).2 hx) hv hn hlt ⟨line, hline, ?_⟩
    rw [hi, hscope, hopens.function]
    rfl

/-- A constant parameter is not written. -/
theorem ne_store_param (h : u.Placed g calls p.lines.toList) (hE : u.EmitsBodyOf f E) {k : Nat} {q : Param}
    (hq : f.params[k]? = some q) (hconst : q.constant = true) {n : Nat} (hn : E.Holds n) :
    p.instructions[n]? ≠ some ⟨.sto, some k⟩ := by
  intro hi
  obtain ⟨hbegins, a, hopens, -⟩ := h.opens hE
  obtain ⟨v, hx, rfl, hv⟩ := hopens.param k q hq
  have ht := h.separate hbegins
  have hscope : v.scope ≠ .outermost := fun hscope => Nat.one_ne_zero ((ht.scope 1 _ v hx).1 hscope)
  refine (h.stands E hbegins).not_writes_constant ht hx (hv.trans hconst) hn.1 hn.2 ?_
  obtain ⟨line, hline, hi⟩ := Program.getElem?_instructions.1 hi
  refine ⟨line, hline, hi.trans ?_⟩
  simp [hscope]

end CompilationUnit.Placed

/-- The constants of a program are written once: in the bodies of the functions and outside, each one to the end of its scope. What is
declared outside functions is not written in a function either, and a constant parameter is not written at all. -/
structure CompilationUnit.KeepsConstants (u : CompilationUnit) (g : Assembly) (p : Program) : Prop where
  scopes : Emission.KeepsConstants p u.Emits
  store_global_iff : ∀ F x v, Emission.Covers ⟨.outermost, u.globals, .empty, g⟩ F → F.Declares x v → v.constant = true →
    ∃ n < g.nextAddress, n + 1 = F.after.nextAddress ∧
      ∀ m < g.nextAddress, p.instructions[m]? = some ⟨.sto, some v.slot⟩ ↔ m = n
  ne_store_global : ∀ F x v, Emission.Covers ⟨.outermost, u.globals, .empty, g⟩ F → F.Declares x v → v.constant = true →
    ∀ m : Nat, p.instructions[m]? ≠ some ⟨.stog, some v.slot⟩
  exists_body : ∀ f ∈ u.functions, ∃ E, u.EmitsBodyOf f E
  ne_store_param : ∀ f E (k : Nat) q, u.EmitsBodyOf f E → f.params[k]? = some q → q.constant = true →
    ∀ m, E.Holds m → p.instructions[m]? ≠ some ⟨.sto, some k⟩

/-- Constants are written once, in programs and in statements. -/
theorem constants_written_once {mode : Mode} {s : Source} {p : Program} (h : compile mode s = .ok p) :
    (mode = .program → ∃ pos u a g, s.lex.ending = .ok pos ∧ Grammar.ProgramText s.lex.tokens pos u ∧
      u.emit.run .empty = .ok ((), a) ∧ a.program = p ∧ (u.globals.emit .outermost).run .empty = .ok ((), g) ∧
      u.KeepsConstants g p) ∧
    (mode = .statements → ∃ S a, Grammar.Statements s.lex.tokens S ∧ (S.emit .outermost).run .empty = .ok ((), a) ∧
      a.program = p ∧ Emission.KeepsConstants p (Emission.Covers ⟨.outermost, S, .empty, a⟩)) := by
  cases mode with
  | program =>
    obtain ⟨pos, u, a, hend, hu, hrun, rfl⟩ := compile_program_eq_ok.1 h
    obtain ⟨g, calls, hplaced⟩ := CompilationUnit.exists_placed hu hrun
    refine ⟨fun _ => ⟨pos, u, a, g, hend, hu, hrun, rfl, hplaced.globals, hplaced.keepsConstants, ?_, ?_, hplaced.exists_body, ?_⟩,
      nofun⟩
    · intro F x v hF hdecl hv
      exact hplaced.store_global_iff hF hdecl hv
    · intro F x v hF hdecl hv m
      exact hplaced.ne_store_global hF hdecl hv m
    · intro f E k q hE hq hconst m hm
      exact hplaced.ne_store_param hE hq hconst hm
  | statements =>
    obtain ⟨pos, S, a, -, hS, hrun, rfl⟩ := compile_statements_eq_ok.1 h
    exact ⟨nofun, fun _ => ⟨S, a, hS, hrun, rfl, (hS.structured.stands hrun).keepsConstants .empty hS.listed⟩⟩

/-- Constants outside functions, in a function and among the parameters, next to a variable that is assigned. -/
def Sample.constantsNextToVariable : Source :=
  .ofString "const u: int = 3; fn f(const k: int, n: int) -> int \x7b const u: int = n * k; n = u; return n; \x7d"

/-- A program with constants outside and inside functions writes each of them once. -/
theorem constants_written_once_scaled : ∃ p, compile .program Sample.constantsNextToVariable = .ok p ∧ ∃ pos u a g,
    Sample.constantsNextToVariable.lex.ending = .ok pos ∧
    Grammar.ProgramText Sample.constantsNextToVariable.lex.tokens pos u ∧ u.emit.run .empty = .ok ((), a) ∧ a.program = p ∧
    (u.globals.emit .outermost).run .empty = .ok ((), g) ∧ u.KeepsConstants g p := by
  have hok : (compile .program Sample.constantsNextToVariable).isOk := by
    rw [Sample.constantsNextToVariable, Source.ofString_ofList]
    decide +kernel
  obtain ⟨p, hp⟩ := Assembling.exists_eq_ok hok
  exact ⟨p, hp, (constants_written_once hp).1 rfl⟩

end C0Stack
