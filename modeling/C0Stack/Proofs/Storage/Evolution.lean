import C0Stack.Proofs.Storage.Accesses
import C0Stack.Proofs.Storage.Separate

/-!
# What becomes of a variable

While code is emitted inside the scope of a variable, the variable keeps its slot, and it is noted as written only when an
instruction that writes it is emitted (`Assembly.Evolves`). So a variable that was not written at one point and is noted as written
at a later one is written in the code between.
-/

namespace C0Stack

open Assembling

/-- The instruction at the address writes the slot, which is in the frame of the scope. The code is in the context. -/
def Context.Writes (ctx : Context) (lines : List CodeLine) (scope : Scope) (slot n : Nat) : Prop :=
  ∃ line, lines[n]? = some line ∧
    line.instruction = ⟨if scope == .outermost && ctx.function.isSome then .stog else .sto, some slot⟩

/-- All that matters is whether the code is in a function. -/
theorem Context.writes_eq {ctx ctx' : Context} (h : ctx'.function.isSome = ctx.function.isSome) (lines : List CodeLine) :
    ctx'.Writes lines = ctx.Writes lines := by
  unfold Context.Writes
  rw [h]

/-- The scope at the depth keeps its variables from the first assembly to the second, and the code between writes those of them that
come to be noted as written, where `writes` says which instruction writes a slot. -/
structure Assembly.Evolves (writes : Scope → Nat → Nat → Prop) (d : Nat) (a b : Assembly) : Prop where
  le : a.nextAddress ≤ b.nextAddress
  keeps : ∀ x v, a.symbols.declared? d x = some (.storage v) →
    ∃ flag, b.symbols.declared? d x = some (.storage { v with initialized := flag })
  written : ∀ x v, b.symbols.declared? d x = some (.storage v) → v.initialized = true →
    (∃ w, a.symbols.declared? d x = some (.storage w) ∧ w.initialized = true) ∨
      ∃ n, a.nextAddress ≤ n ∧ n < b.nextAddress ∧ writes v.scope v.slot n

namespace Assembly.Evolves

variable {writes writes' : Scope → Nat → Nat → Prop} {d : Nat} {a b c : Assembly}

/-- Nothing is said of functions that are declared. -/
theorem of_storage_iff (hle : a.nextAddress ≤ b.nextAddress)
    (h : ∀ x v, b.symbols.declared? d x = some (.storage v) ↔ a.symbols.declared? d x = some (.storage v)) :
    Evolves writes d a b where
  le := hle
  keeps x v hx := ⟨v.initialized, (h x v).2 hx⟩
  written x v hx hv := .inl ⟨v, (h x v).1 hx, hv⟩

/-- Where the names in scope stay, nothing is noted. -/
theorem of_symbols_eq (hle : a.nextAddress ≤ b.nextAddress) (hsymbols : b.symbols = a.symbols) : Evolves writes d a b :=
  .of_storage_iff hle fun x v => by rw [hsymbols]

theorem refl (a : Assembly) : Evolves writes d a a := .of_symbols_eq (Nat.le_refl _) rfl

theorem push (a : Assembly) (op : Operation) (operand : Option Nat) (pos : Position) : Evolves writes d a (a.push op operand pos) :=
  .of_symbols_eq (by rw [nextAddress_push]; exact Nat.le_succ _) rfl

/-- What becomes of a variable in two steps. -/
theorem trans (h : Evolves writes d a b) (h' : Evolves writes d b c) : Evolves writes d a c where
  le := Nat.le_trans h.le h'.le
  keeps x v hx := by
    obtain ⟨flag, hx⟩ := h.keeps x v hx
    exact h'.keeps x { v with initialized := flag } hx
  written x v hx hv := by
    rcases h'.written x v hx hv with ⟨w, hw, hinit⟩ | ⟨n, hn, hlt, hwrites⟩
    · rcases h.written x w hw hinit with hfirst | ⟨n, hn, hlt, hwrites⟩
      · exact .inl hfirst
      · -- the variable has not been moved since
        obtain ⟨flag, hx'⟩ := h'.keeps x w hw
        rw [hx] at hx'
        cases hx'
        exact .inr ⟨n, hn, Nat.lt_of_lt_of_le hlt h'.le, hwrites⟩
    · exact .inr ⟨n, Nat.le_trans h.le hn, hlt, hwrites⟩

/-- More instructions may count as writes. -/
theorem mono (h : Evolves writes d a b)
    (hwrites : ∀ scope slot n, a.nextAddress ≤ n → n < b.nextAddress → writes scope slot n → writes' scope slot n) :
    Evolves writes' d a b where
  le := h.le
  keeps := h.keeps
  written x v hx hv := by
    rcases h.written x v hx hv with hfirst | ⟨n, hn, hlt, hn'⟩
    · exact .inl hfirst
    · exact .inr ⟨n, hn, hlt, hwrites _ _ n hn hlt hn'⟩

/-- A variable that is declared has not been written. -/
theorem declare {x : String} {constant : Bool} {ty : Ty} {pos : Position} {v : Variable} {t : SymbolTable}
    (h : a.symbols.declare x constant ty pos = .ok (v, t)) : Evolves writes d a { a with symbols := t } where
  le := Nat.le_refl _
  keeps y w hy := by
    refine ⟨w.initialized, ?_⟩
    rw [SymbolTable.declared?_declare h, if_neg]
    · exact hy
    · rintro ⟨rfl, rfl⟩
      rw [SymbolTable.declared?_eq_none_of_declare h] at hy
      cases hy
  written y w hy hw := by
    rw [SymbolTable.declared?_declare h] at hy
    split at hy
    · obtain ⟨-, rfl, -⟩ := SymbolTable.declare_eq_ok.1 h
      cases hy
      cases hw
    · exact .inl ⟨w, hy, hw⟩

/-- Where a write is noted, it is emitted too. -/
theorem write {x : String} {pos pos' : Position} {v : Variable} {t : SymbolTable} {op : Operation} {operand : Option Nat}
    (h : a.symbols.markWritten x pos = .ok t) (hx : a.symbols.find? x = some (.storage v))
    (hwrites : writes v.scope v.slot a.nextAddress) (hb : b.nextAddress = (a.push op operand pos').nextAddress)
    (ht : b.symbols = t) : Evolves writes d a b := by
  rw [nextAddress_push] at hb
  obtain ⟨d', b', hb', hdeep, hmark⟩ := SymbolTable.declared?_markWritten h
  obtain rfl : b' = .storage v := by
    have hfound := SymbolTable.find?_eq_some.2 ⟨d', hb', hdeep⟩
    rw [hx] at hfound
    exact (Option.some.inj hfound).symm
  refine ⟨by omega, fun y w hy => ?_, fun y w hy hw => ?_⟩
  · rw [ht, hmark]
    split
    · rename_i heq
      obtain ⟨rfl, rfl⟩ := heq
      rw [hb'] at hy
      cases hy
      exact ⟨true, rfl⟩
    · exact ⟨w.initialized, hy⟩
  · rw [ht, hmark] at hy
    split at hy
    · cases hy
      exact .inr ⟨a.nextAddress, Nat.le_refl _, by omega, hwrites⟩
    · exact .inl ⟨w, hy, hw⟩

/-- A scope that is opened changes nothing outside it. -/
theorem enter (a : Assembly) : Evolves writes d a { a with symbols := a.symbols.enterBlock } :=
  .of_storage_iff (Nat.le_refl _) fun x _ => Eq.congr_left (a.symbols.declared?_enter _ d x)

/-- Nothing is known of the variables of a scope that is closed. -/
theorem leave (h : Evolves writes d { a with symbols := a.symbols.enterBlock } b) (hdepth : b.symbols.depth = a.symbols.depth + 1) :
    Evolves writes d a { b with symbols := b.symbols.leave } := by
  have hne : b.symbols.nested ≠ [] := by
    intro hnil
    rw [SymbolTable.depth, hnil] at hdepth
    cases hdepth
  have henter : ∀ x, (a.symbols.enterBlock).declared? d x = a.symbols.declared? d x := a.symbols.declared?_enter _ d
  refine ⟨h.le, fun x v hx => ?_, fun x v hx hv => ?_⟩
  · obtain ⟨flag, hx'⟩ := h.keeps x v ((henter x).trans hx)
    refine ⟨flag, ?_⟩
    have hle := SymbolTable.le_depth_of_declared? hx
    rw [SymbolTable.declared?_leave hne, if_neg (by omega)]
    exact hx'
  · rw [SymbolTable.declared?_leave hne] at hx
    split at hx
    · cases hx
    · have hwritten := h.written x v hx hv
      rw [henter] at hwritten
      exact hwritten

end Assembly.Evolves

/-! ## Expressions -/

namespace Expr

open Assembly

section

variable {ctx : Context} {lines : List CodeLine} {d : Nat}

/-- What an assignment does to the variable when its value is known. -/
theorem evolves_assign {x : Ident} {e : Expr} {v : Variable} {ty : Ty} {a a₁ : Assembly} {t : SymbolTable}
    (hs : StandsAt lines a.nextAddress ((assign x e).code ctx a.symbols)) (hv : a.symbols.find? x.name = some (.storage v))
    (he : Emitted ctx e ty a a₁) (ht : a₁.symbols.markWritten x.name x.pos = .ok t) :
    Evolves (ctx.Writes lines) d a₁ (({ a₁ with symbols := t } : Assembly).push (ctx.storeOp v) (some v.slot) x.pos) := by
  rw [code, SymbolTable.codeFor_of_find? hv, Context.storeCode] at hs
  have hhead := (he.stands_behind hs).getElem?_head
  obtain ⟨w, hw, -, -, hslot, hscope⟩ := SymbolTable.find?_storage_of_written he.written.symm hv
  refine .write ht hw ?_ rfl rfl
  rw [hslot, hscope]
  exact ⟨_, hhead, rfl⟩

mutual

/-- An expression writes the variables that it notes as written. -/
theorem evolves {e : Expr} {ty : Ty} {a a' : Assembly} (h : (e.emit ctx).run a = .ok (ty, a'))
    (hs : StandsAt lines a.nextAddress (e.code ctx a.symbols)) : Evolves (ctx.Writes lines) d a a' := by
  cases e with
  | int pos n =>
    obtain ⟨-, rfl⟩ := run_emit_int.1 h
    exact .push ..
  | literal pos kind =>
    rw [emit] at h
    exact (run_fail_eq_ok.1 h).elim
  | var x =>
    obtain ⟨v, -, -, -, rfl⟩ := run_emit_var.1 h
    exact .push ..
  | call f args =>
    obtain ⟨s, a₁, -, hargs, hlen, -, rfl⟩ := run_emit_call.1 h
    rw [code] at hs
    exact (evolves_arguments hlen hargs hs.left).trans (.push ..)
  | assign x value =>
    obtain ⟨v, a₁, t, hv, -, hval, ht, -, rfl⟩ := run_emit_assign.1 h
    have hassign := evolves_assign (d := d) hs hv (emitted hval) ht
    rw [code] at hs
    exact (evolves hval hs.left).trans hassign
  | paren pos inner =>
    rw [emit_paren] at h
    rw [code] at hs
    exact evolves h hs
  | neg pos operand =>
    obtain ⟨a₁, hoperand, -, rfl⟩ := run_emit_neg.1 h
    exact ((Evolves.push ..).trans (evolves hoperand (stands_operand hs).left)).trans (.push ..)
  | cast value pos target =>
    obtain ⟨source, hval, -⟩ := run_emit_cast.1 h
    rw [code] at hs
    exact evolves hval hs
  | binary left op pos right =>
    obtain ⟨operand, a₁, a₂, hl, hr, -, -, rfl⟩ := run_emit_binary.1 h
    have hright := stands_right hs (emitted hl)
    rw [code] at hs
    exact ((evolves hl hs.left).trans (evolves hr hright.left)).trans (.push ..)
  | fault error =>
    rw [emit] at h
    exact (run_throw_eq_ok.1 h).elim
  | cut read error =>
    rw [emit, run_bind_eq_ok] at h
    obtain ⟨_, _, -, h⟩ := h
    exact (run_throw_eq_ok.1 h).elim

/-- The arguments of a call write the variables that they note as written. -/
theorem evolves_arguments {es : List Expr} {tys : List Ty} (hlen : es.length = tys.length) {a a' : Assembly} {u : Unit}
    (h : (emitArguments ctx tys es).run a = .ok (u, a')) (hs : StandsAt lines a.nextAddress (codeOfAll ctx a.symbols es)) :
    Evolves (ctx.Writes lines) d a a' := by
  cases es with
  | nil =>
    cases tys with
    | nil =>
      rw [emitArguments] at h
      obtain ⟨-, rfl⟩ := run_pure_eq_ok.1 h
      exact .refl _
    | cons => cases hlen
  | cons e es =>
    cases tys with
    | nil => cases hlen
    | cons ty tys =>
      obtain ⟨a₁, he, hes⟩ := run_emitArguments_cons.1 h
      have hrest := stands_arguments hs (emitted he)
      rw [codeOfAll] at hs
      exact (evolves he hs.left).trans (evolves_arguments (Nat.succ.inj hlen) hes hrest)

end

mutual

/-- The same up to an access inside the expression. -/
theorem Accesses.evolves {e : Expr} {ty : Ty} {k : Access} {x : Ident} {a a' b : Assembly} (h : e.Accesses ctx a k x b)
    (hrun : (e.emit ctx).run a = .ok (ty, a')) (hs : StandsAt lines a.nextAddress (e.code ctx a.symbols)) :
    Evolves (ctx.Writes lines) d a b := by
  cases e with
  | int | literal | fault | cut => cases h
  | var =>
    cases h with
    | var => exact .refl _
  | call f args =>
    cases h with
    | argument h =>
      obtain ⟨s, a₁, -, hargs, hlen, -, rfl⟩ := run_emit_call.1 hrun
      rw [code] at hs
      exact h.evolves hlen hargs hs.left
  | assign y value =>
    cases h with
    | value h =>
      obtain ⟨v, a₁, t, -, -, hval, -, -, rfl⟩ := run_emit_assign.1 hrun
      rw [code] at hs
      exact h.evolves hval hs.left
    | assign hval =>
      rw [code] at hs
      exact Expr.evolves hval hs.left
  | paren pos inner =>
    cases h with
    | paren h =>
      rw [emit_paren] at hrun
      rw [code] at hs
      exact h.evolves hrun hs
  | neg pos operand =>
    cases h with
    | neg h =>
      obtain ⟨a₁, hoperand, -, rfl⟩ := run_emit_neg.1 hrun
      exact (Evolves.push ..).trans (h.evolves hoperand (stands_operand hs).left)
  | cast value pos target =>
    cases h with
    | cast h =>
      obtain ⟨source, hval, -⟩ := run_emit_cast.1 hrun
      rw [code] at hs
      exact h.evolves hval hs
  | binary left op pos right =>
    obtain ⟨operand, a₁, a₂, hl, hr, -⟩ := run_emit_binary.1 hrun
    have hright := stands_right hs (emitted hl)
    rw [code] at hs
    cases h with
    | left h => exact h.evolves hl hs.left
    | right hl' h =>
      rw [hl] at hl'
      cases hl'
      exact (Expr.evolves hl hs.left).trans (h.evolves hr hright.left)

/-- The same up to an access inside the arguments. -/
theorem AccessesAny.evolves {es : List Expr} {tys : List Ty} {k : Access} {x : Ident} {a a' b : Assembly} {u : Unit}
    (h : AccessesAny ctx es a k x b) (hlen : es.length = tys.length) (hrun : (emitArguments ctx tys es).run a = .ok (u, a'))
    (hs : StandsAt lines a.nextAddress (codeOfAll ctx a.symbols es)) : Evolves (ctx.Writes lines) d a b := by
  cases es with
  | nil => cases h
  | cons e es =>
    cases tys with
    | nil => cases hlen
    | cons ty tys =>
      obtain ⟨a₁, he, hes⟩ := run_emitArguments_cons.1 hrun
      have hrest := stands_arguments hs (emitted he)
      rw [codeOfAll] at hs
      cases h with
      | head h => exact h.evolves he hs.left
      | tail he' h =>
        rw [he] at he'
        cases he'
        exact (Expr.evolves he hs.left).trans (h.evolves (Nat.succ.inj hlen) hes hrest)

end

end

end Expr

/-! ## Statements -/

namespace Emission

open Assembly

variable {calls : Nat → Option Signature} {lines : List CodeLine} {E E' : Emission} {d : Nat}

/-- The code of an expression in a statement stands where the expression is emitted. -/
theorem exists_value_of_stands {ctx : Context} {s : Stmt} {a a' b : Assembly} {e : Expr} (h : Stands calls lines ⟨ctx, s, a, a'⟩)
    (he : Evaluates ⟨ctx, s, a, a'⟩ e b) :
    ∃ ty b', (e.emit ctx).run b = .ok (ty, b') ∧ StandsAt lines b.nextAddress (e.code ctx b.symbols) := by
  have run := h.run_eq
  have structured : s.Structured := h.structured
  obtain ⟨exit, -, hplaced⟩ := h.placed
  cases he with
  | init hname hd =>
    obtain ⟨ty', v', t', a₁, t₁, hname', hty, hd', hval, ht₁, rfl⟩ := Stmt.run_emit_init.1 run
    obtain rfl := Option.some.inj (hname.symm.trans hname')
    obtain ⟨rfl, rfl⟩ := Prod.mk.inj (Except.ok.inj (hd.symm.trans hd'))
    exact ⟨_, a₁, hval, (hplaced _ _ (.init hty hd (Expr.emitted hval) ht₁)).left⟩
  | expr =>
    obtain ⟨ty, a₁, he, rfl⟩ := Stmt.run_emit_expr.1 run
    exact ⟨ty, a₁, he, (hplaced _ _ (.expr (Expr.emitted he))).left⟩
  | ifThen =>
    obtain ⟨ty, a₁, a₂, hc, hty, h₁, rfl⟩ := Stmt.run_emit_ifThen.1 run
    obtain ⟨code, w, hasm⟩ := Stmt.emitted structured.2 h₁
    exact ⟨ty, a₁, hc, (hplaced _ _ (hasm.ifThen (Expr.emitted hc) hty structured.1)).left⟩
  | ifElse =>
    obtain ⟨ty, a₁, a₂, a₃, hc, hty, h₁, h₂, rfl⟩ := Stmt.run_emit_ifElse.1 run
    obtain ⟨hscoped₁, hscoped₂, hs₁, hs₂⟩ := structured
    obtain ⟨c₁, w₁, hasm₁⟩ := Stmt.emitted hs₁ h₁
    obtain ⟨c₂, w₂, hasm₂⟩ := Stmt.emitted hs₂ h₂
    exact ⟨ty, a₁, hc, (hplaced _ _ (.ifElse (Expr.emitted hc) hty hscoped₁ hscoped₂ hasm₁ hasm₂)).left⟩
  | loop =>
    obtain ⟨ty, a₁, a₂, hc, hty, h₁, rfl⟩ := Stmt.run_emit_loop.1 run
    obtain ⟨code, w, hasm⟩ := Stmt.emitted structured.2 h₁
    exact ⟨ty, a₁, hc, (hplaced _ _ (hasm.loop (Expr.emitted hc) hty structured.1)).left⟩
  | retValue =>
    obtain ⟨found, a₁, he, hty, rfl⟩ := Stmt.run_emit_retValue.1 run
    exact ⟨found, a₁, he, (hplaced _ _ (.retValue (Expr.emitted he) hty)).left⟩

/-- In front of an expression of a statement nothing has been written. -/
theorem Evaluates.evolves {e : Expr} {a : Assembly} (h : E.Evaluates e a) : Evolves (E.ctx.Writes lines) d E.before a := by
  cases h with
  | init _ hd => exact .declare hd
  | _ => exact .refl _

/-- An expression of the statement writes the variables that it notes as written. -/
theorem Stands.evolves_value (h : E.Stands calls lines) {e : Expr} {ty : Ty} {a a' : Assembly} (he : E.Evaluates e a)
    (hrun : (e.emit E.ctx).run a = .ok (ty, a')) : Evolves (E.ctx.Writes lines) d E.before a' := by
  obtain ⟨_, _, -, hs⟩ := exists_value_of_stands h he
  exact he.evolves.trans (Expr.evolves hrun hs)

/-- So do the statement and its expressions up to an access. -/
theorem Stands.evolves_access (h : E.Stands calls lines) {k : Access} {x : Ident} {b : Assembly} (hE : E.Accesses k x b) :
    Evolves (E.ctx.Writes lines) d E.before b := by
  obtain ⟨e, a, he, haccess⟩ := hE
  obtain ⟨ty, a', hrun, hs⟩ := exists_value_of_stands h he
  exact he.evolves.trans (haccess.evolves hrun hs)

/-- A statement writes the variables that it notes as written. -/
theorem evolves_of_stands {ctx : Context} {s : Stmt} {a a' : Assembly} (h : Stands calls lines ⟨ctx, s, a, a'⟩) :
    Evolves (ctx.Writes lines) d a a' := by
  have run := h.run_eq
  have structured : s.Structured := h.structured
  induction s generalizing ctx a a' with
  | nil =>
    obtain ⟨-, rfl⟩ := run_pure_eq_ok.1 (by rwa [Stmt.emit_nil] at run)
    exact .refl _
  | empty =>
    obtain ⟨-, rfl⟩ := run_pure_eq_ok.1 (by rwa [Stmt.emit_empty] at run)
    exact .refl _
  | seq first rest ih₁ ih₂ =>
    obtain ⟨a₁, h₁, h₂⟩ := Stmt.run_emit_seq.1 run
    exact (ih₁ (h.of_has (.first h₁ h₂)) h₁ structured.1).trans (ih₂ (h.of_has (.rest h₁ h₂)) h₂ structured.2)
  | decl pos constant x target init =>
    cases init with
    | none =>
      obtain ⟨ty, v, t, -, -, hd, rfl⟩ := Stmt.run_emit_decl.1 run
      exact .declare hd
    | some e =>
      obtain ⟨ty, v, t, a₁, t₁, hname, hty, hd, he, ht₁, rfl⟩ := Stmt.run_emit_init.1 run
      have hvalue : Evolves (ctx.Writes lines) d a a₁ := h.evolves_value (.init hname hd) he
      refine hvalue.trans ?_
      obtain ⟨exit, -, hplaced⟩ := h.placed
      have hhead := ((Expr.emitted he).stands_behind (hplaced _ _ (.init hty hd (Expr.emitted he) ht₁))).getElem?_head
      have hfind : t.find? x.name = some (.storage v) := by rw [SymbolTable.find?_declare hd, if_pos rfl]
      obtain ⟨w, hw, -, -, hslot, hscope⟩ := SymbolTable.find?_storage_of_written (Expr.emitted he).written.symm hfind
      refine .write ht₁ hw ?_ rfl rfl
      rw [hslot, hscope]
      exact ⟨_, hhead, rfl⟩
  | expr e =>
    obtain ⟨ty, a₁, he, rfl⟩ := Stmt.run_emit_expr.1 run
    have hvalue : Evolves (ctx.Writes lines) d a a₁ := h.evolves_value .expr he
    split
    · exact hvalue
    · exact hvalue.trans (.push ..)
  | block body ih =>
    obtain ⟨a₁, h₁, rfl⟩ := Stmt.run_emit_block.1 run
    have hbody : body.Structured := structured
    obtain ⟨code, w, hasm⟩ := Stmt.emitted hbody h₁
    exact (ih (h.of_has (.block h₁)) h₁ structured).leave (hasm.compiled 0).depth_eq
  | ifThen pos condition body ih =>
    obtain ⟨ty, a₁, a₂, hc, hty, h₁, rfl⟩ := Stmt.run_emit_ifThen.1 run
    have hvalue : Evolves (ctx.Writes lines) d a a₁ := h.evolves_value .ifThen hc
    have hbody := ih (h.of_has (.ifThen hc hty h₁)) h₁ structured.2
    exact ((hvalue.trans (.push ..)).trans hbody).trans (.of_symbols_eq (Nat.le_of_eq (a₂.nextAddress_patch _).symm) rfl)
  | ifElse pos condition body elsePos other ih₁ ih₂ =>
    obtain ⟨ty, a₁, a₂, a₃, hc, hty, h₁, h₂, rfl⟩ := Stmt.run_emit_ifElse.1 run
    have hvalue : Evolves (ctx.Writes lines) d a a₁ := h.evolves_value .ifElse hc
    have hbody := ih₁ (h.of_has (.ifElse hc hty h₁ h₂)) h₁ structured.2.2.1
    have hother := ih₂ (h.of_has (.alternative hc hty h₁ h₂)) h₂ structured.2.2.2
    refine (((hvalue.trans (.push ..)).trans hbody).trans ?_).trans (hother.trans ?_)
    · exact .of_symbols_eq (by simp) rfl
    · exact .of_symbols_eq (by simp) rfl
  | loop pos condition body ih =>
    obtain ⟨ty, a₁, a₂, hc, hty, h₁, rfl⟩ := Stmt.run_emit_loop.1 run
    have hvalue : Evolves (ctx.Writes lines) d a a₁ := h.evolves_value .loop hc
    have hbody := ih (h.of_has (.loop hc hty h₁)) h₁ structured.2
    refine (hvalue.trans ?_).trans (hbody.trans ?_)
    · exact .of_symbols_eq (Nat.le_trans (Nat.le_succ _) (Nat.le_of_eq (a₁.nextAddress_push ..).symm)) rfl
    · refine .of_symbols_eq ?_ (symbols_foldl_patch ..)
      rw [nextAddress_foldl_patch, nextAddress_patch, nextAddress_push]
      exact Nat.le_succ _
  | leave pos =>
    obtain ⟨-, rfl⟩ := Stmt.run_emit_leave.1 run
    exact .of_symbols_eq (Nat.le_trans (Nat.le_succ _) (Nat.le_of_eq (a.nextAddress_push ..).symm)) rfl
  | again pos =>
    obtain ⟨head, -, rfl⟩ := Stmt.run_emit_again.1 run
    exact .push ..
  | ret pos stop =>
    obtain ⟨-, rfl⟩ := Stmt.run_emit_ret.1 run
    exact .push ..
  | retValue pos e =>
    obtain ⟨found, a₁, he, hty, rfl⟩ := Stmt.run_emit_retValue.1 run
    have hvalue : Evolves (ctx.Writes lines) d a a₁ := h.evolves_value .retValue he
    exact hvalue.trans (.push ..)
  | fault error => exact (run_throw_eq_ok.1 (by rwa [Stmt.emit_fault] at run)).elim

/-- So does what is emitted of a statement in front of one of its parts. -/
theorem Has.evolves (h : E.Has E') (hs : E.Stands calls lines) : Evolves (E.ctx.Writes lines) d E.before E'.before := by
  cases h with
  | first => exact .refl _
  | rest h₁ h₂ => exact evolves_of_stands (hs.of_has (.first h₁ h₂))
  | block => exact .enter _
  | ifThen hc => exact (hs.evolves_value .ifThen hc).trans (.push ..)
  | ifElse hc => exact (hs.evolves_value .ifElse hc).trans (.push ..)
  | alternative hc hty h₁ h₂ =>
    refine (((hs.evolves_value .ifElse hc).trans (.push ..)).trans (evolves_of_stands (hs.of_has (.ifElse hc hty h₁ h₂)))).trans ?_
    exact .of_symbols_eq (by simp) rfl
  | @loop _ _ _ _ _ _ a₁ _ hc =>
    refine (hs.evolves_value .loop hc).trans ?_
    exact .of_symbols_eq (Nat.le_trans (Nat.le_succ _) (Nat.le_of_eq (a₁.nextAddress_push ..).symm)) rfl

/-- A part of a statement is in the same function. -/
theorem Has.function_eq (h : E.Has E') : E'.ctx.function = E.ctx.function := by
  cases h <;> rfl

theorem function_eq_of_covers (h : E.Covers E') : E'.ctx.function = E.ctx.function := by
  induction h with
  | refl => rfl
  | tail _ hlast ih => exact hlast.function_eq.trans ih

/-- What is emitted of a statement in front of a part at any depth writes the variables that it notes as written. -/
theorem Stands.evolves_of_covers (h : E.Stands calls lines) (hE : E.Covers E') :
    Evolves (E.ctx.Writes lines) d E.before E'.before := by
  induction hE with
  | refl => exact .refl _
  | tail hcovers hlast ih =>
    have hstep := hlast.evolves (d := d) (h.of_covers hcovers)
    rw [Context.writes_eq (congrArg Option.isSome (function_eq_of_covers hcovers))] at hstep
    exact ih.trans hstep

end Emission

end C0Stack
