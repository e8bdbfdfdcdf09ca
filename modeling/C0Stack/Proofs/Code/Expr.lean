import C0Stack.Proofs.Assembling
import C0Stack.Proofs.Static.Expr

/-!
# The code of an expression

`Expr.code` gives the code of an expression as a function of the tree and of the table, with no state: operands from left to right,
then the operation. `Expr.emit` succeeds exactly if the expression has a type (`Expr.exists_emit`, `Expr.emitted`), and then it
appends this code to what was there, notes the assignments, and leaves all else as it was.
-/

namespace C0Stack

/-- The code for a name, given the code for what the name stands for. -/
def SymbolTable.codeFor (t : SymbolTable) (x : Ident) (g : Binding → List CodeLine) : List CodeLine :=
  ((t.find? x.name).map g).getD []

/-- Code that does not look at what has been written is the same in tables that differ in nothing else. -/
theorem SymbolTable.codeFor_eq_of_written {t t' : SymbolTable} (h : t'.written = t.written) {g : Binding → List CodeLine}
    (hg : ∀ b, g b.markWritten = g b) (x : Ident) : t'.codeFor x g = t.codeFor x g := by
  have hw : ∀ u : SymbolTable, u.written.codeFor x g = u.codeFor x g := by
    intro u
    unfold codeFor
    rw [find?_written, Option.map_map]
    cases u.find? x.name with
    | none => rfl
    | some b => simp [hg]
  rw [← hw t', h, hw t]

/-- Tables that differ in nothing but what has been written have the same variables. -/
theorem SymbolTable.find?_storage_of_written {t t' : SymbolTable} (h : t'.written = t.written) {x : String} {v : Variable}
    (hx : t'.find? x = some (.storage v)) :
    ∃ w, t.find? x = some (.storage w) ∧ w.ty = v.ty ∧ w.constant = v.constant ∧ w.slot = v.slot ∧ w.scope = v.scope := by
  have hw := find?_written t' x
  rw [h, find?_written, hx, Option.map_some, Option.map_eq_some_iff] at hw
  obtain ⟨b, hb, hmark⟩ := hw
  cases b with
  | storage w =>
    simp only [Binding.markWritten, Binding.storage.injEq, Variable.mk.injEq] at hmark
    obtain ⟨hty, hconstant, hslot, hscope, -⟩ := hmark
    exact ⟨w, hb, hty, hconstant, hslot, hscope⟩
  | function f => cases hmark

/-- The code for a name that is found is the one for what it stands for. -/
theorem SymbolTable.codeFor_of_find? {t : SymbolTable} {x : Ident} {b : Binding} (h : t.find? x.name = some b)
    (g : Binding → List CodeLine) : t.codeFor x g = g b := by
  unfold codeFor
  rw [h]
  rfl

namespace Context

/-- The read of a variable. -/
def loadCode (ctx : Context) (pos : Position) : Binding → List CodeLine
  | .storage v => [⟨⟨ctx.loadOp v, some v.slot⟩, pos⟩]
  | .function _ => []

/-- The write of a variable. -/
def storeCode (ctx : Context) (pos : Position) : Binding → List CodeLine
  | .storage v => [⟨⟨ctx.storeOp v, some v.slot⟩, pos⟩]
  | .function _ => []

/-- Whether a variable has been written does not matter to reads of it. -/
theorem loadCode_markWritten (ctx : Context) (pos : Position) (b : Binding) :
    ctx.loadCode pos b.markWritten = ctx.loadCode pos b := by
  cases b <;> rfl

theorem storeCode_markWritten (ctx : Context) (pos : Position) (b : Binding) :
    ctx.storeCode pos b.markWritten = ctx.storeCode pos b := by
  cases b <;> rfl

end Context

namespace Expr

/-- The call of a function. -/
def callCode (pos : Position) : Binding → List CodeLine
  | .storage _ => []
  | .function f => [⟨⟨.call, some f.entry⟩, pos⟩]

theorem callCode_markWritten (pos : Position) (b : Binding) : callCode pos b.markWritten = callCode pos b := by
  cases b <;> rfl

mutual

/-- The code of the expression where the table is `t`. -/
def code (ctx : Context) (t : SymbolTable) : Expr → List CodeLine
  | int pos value => [⟨⟨.lit, some value.toNat⟩, pos⟩]
  | literal _ _ => []
  | var x => t.codeFor x (ctx.loadCode x.pos)
  | call f args => codeOfAll ctx t args ++ t.codeFor f (callCode f.pos)
  | assign x value => value.code ctx t ++ t.codeFor x (ctx.storeCode x.pos)
  | paren _ inner => inner.code ctx t
  | neg pos operand => ⟨⟨.lit, some 0⟩, pos⟩ :: (operand.code ctx t ++ [⟨⟨.sub, none⟩, pos⟩])
  | cast value _ _ => value.code ctx t
  | binary left op pos right => left.code ctx t ++ (right.code ctx t ++ [⟨⟨op.operation, none⟩, pos⟩])
  | fault _ => []
  | cut read _ => read.code ctx t

/-- The code of the expressions, one after the other. -/
def codeOfAll (ctx : Context) (t : SymbolTable) : List Expr → List CodeLine
  | [] => []
  | e :: es => e.code ctx t ++ codeOfAll ctx t es

end

mutual

/-- Tables that differ only in what has been written give the same code. -/
theorem code_eq_of_written {t t' : SymbolTable} (h : t'.written = t.written) (ctx : Context) (e : Expr) :
    e.code ctx t' = e.code ctx t := by
  cases e with
  | int | literal | fault => simp only [code]
  | var x => simp only [code, SymbolTable.codeFor_eq_of_written h (ctx.loadCode_markWritten x.pos)]
  | call f args =>
    simp only [code, SymbolTable.codeFor_eq_of_written h (callCode_markWritten f.pos), codeOfAll_eq_of_written h ctx args]
  | assign x value =>
    simp only [code, SymbolTable.codeFor_eq_of_written h (ctx.storeCode_markWritten x.pos), code_eq_of_written h ctx value]
  | paren _ inner => simp only [code, code_eq_of_written h ctx inner]
  | neg _ operand => simp only [code, code_eq_of_written h ctx operand]
  | cast value _ _ => simp only [code, code_eq_of_written h ctx value]
  | binary left _ _ right => simp only [code, code_eq_of_written h ctx left, code_eq_of_written h ctx right]
  | cut read _ => simp only [code, code_eq_of_written h ctx read]

/-- Tables that differ only in what has been written give the same code for arguments. -/
theorem codeOfAll_eq_of_written {t t' : SymbolTable} (h : t'.written = t.written) (ctx : Context) (es : List Expr) :
    codeOfAll ctx t' es = codeOfAll ctx t es := by
  cases es with
  | nil => simp only [codeOfAll]
  | cons e es => simp only [codeOfAll, code_eq_of_written h ctx e, codeOfAll_eq_of_written h ctx es]

end

/-! ## What each kind of expression emits -/

section

open Assembling

variable {ctx : Context} {a a' : Assembly} {ty : Ty} {pos : Position}

/-- A literal emits its value. -/
theorem run_emit_int {n : UInt64} :
    ((int pos n).emit ctx).run a = .ok (ty, a') ↔ ty = .int ∧ a' = a.push .lit (some n.toNat) pos := by
  rw [emit, run_bind_eq_ok]
  simp only [run_emit_eq_ok, run_pure_eq_ok]
  constructor
  · rintro ⟨_, _, rfl, rfl, rfl⟩
    exact ⟨rfl, rfl⟩
  · rintro ⟨rfl, rfl⟩
    exact ⟨(), _, rfl, rfl, rfl⟩

/-- A name that is read is a variable with a value. -/
theorem run_emit_var {x : Ident} :
    ((var x).emit ctx).run a = .ok (ty, a') ↔
      ∃ v, a.symbols.find? x.name = some (.storage v) ∧ v.initialized = true ∧ ty = v.ty ∧
        a' = a.push (ctx.loadOp v) (some v.slot) x.pos := by
  rw [emit, emitLoad, run_bind_eq_ok]
  simp only [run_lookup_eq_ok]
  constructor
  · rintro ⟨b, _, ⟨hb, rfl⟩, h⟩
    cases b with
    | function f => simp only [run_fail_eq_ok] at h
    | storage v =>
      simp only at h
      split at h
      · rename_i hv
        rw [run_bind_eq_ok] at h
        obtain ⟨_, _, h₁, h₂⟩ := h
        rw [run_emit_eq_ok] at h₁
        rw [run_pure_eq_ok] at h₂
        exact ⟨v, hb, hv, h₂.1, by rw [h₂.2, h₁]⟩
      · simp only [run_fail_eq_ok] at h
  · rintro ⟨v, hb, hv, rfl, rfl⟩
    refine ⟨_, _, ⟨hb, rfl⟩, ?_⟩
    simp only [hv, if_true]
    exact run_bind_eq_ok.2 ⟨(), _, run_emit_eq_ok.2 rfl, run_pure_eq_ok.2 ⟨rfl, rfl⟩⟩

/-- A name that is called is a function. -/
theorem run_callable {f : Ident} {s : Signature} :
    (callable f).run a = .ok (s, a') ↔ a.symbols.find? f.name = some (.function s) ∧ a' = a := by
  rw [callable, run_bind_eq_ok]
  simp only [run_lookup_eq_ok]
  constructor
  · rintro ⟨b, _, ⟨hb, rfl⟩, h⟩
    cases b with
    | function f' =>
      obtain ⟨rfl, rfl⟩ := run_pure_eq_ok.1 h
      exact ⟨hb, rfl⟩
    | storage v => simp only [run_fail_eq_ok] at h
  · rintro ⟨hb, rfl⟩
    exact ⟨_, _, ⟨hb, rfl⟩, run_pure_eq_ok.2 ⟨rfl, rfl⟩⟩

/-- A name that is assigned is a variable that is not constant. -/
theorem run_assignable {x : Ident} {v : Variable} :
    (assignable x).run a = .ok (v, a') ↔
      a.symbols.find? x.name = some (.storage v) ∧ v.constant = false ∧ a' = a := by
  rw [assignable, run_bind_eq_ok]
  simp only [run_lookup_eq_ok]
  constructor
  · rintro ⟨b, _, ⟨hb, rfl⟩, h⟩
    cases b with
    | function f' => simp only [run_fail_eq_ok] at h
    | storage w =>
      simp only at h
      split at h
      · simp only [run_fail_eq_ok] at h
      · rename_i hw
        obtain ⟨rfl, rfl⟩ := run_pure_eq_ok.1 h
        exact ⟨hb, by simpa using hw, rfl⟩
  · rintro ⟨hb, hv, rfl⟩
    refine ⟨_, _, ⟨hb, rfl⟩, ?_⟩
    simp only [hv, Bool.false_eq_true, if_false]
    exact run_pure_eq_ok.2 ⟨rfl, rfl⟩

/-- A call emits its arguments, as many as there are parameters, and a `CALL`. -/
theorem run_emit_call {f : Ident} {args : List Expr} :
    ((call f args).emit ctx).run a = .ok (ty, a') ↔
      ∃ s a₁, a.symbols.find? f.name = some (.function s) ∧ (emitArguments ctx s.params args).run a = .ok ((), a₁) ∧
        args.length = s.params.length ∧ ty = s.returns ∧ a' = a₁.push .call (some s.entry) f.pos := by
  rw [emit, run_bind_eq_ok]
  simp only [run_callable]
  constructor
  · rintro ⟨s, _, ⟨hs, rfl⟩, h⟩
    obtain ⟨_, a₁, h₁, h₂⟩ := run_bind_eq_ok.1 h
    split at h₂
    · rename_i hlen
      obtain ⟨_, _, h₃, h₄⟩ := run_bind_eq_ok.1 h₂
      rw [run_emit_eq_ok] at h₃
      rw [run_pure_eq_ok] at h₄
      exact ⟨s, a₁, hs, h₁, hlen, h₄.1, by rw [h₄.2, h₃]⟩
    · simp only [run_fail_eq_ok] at h₂
  · rintro ⟨s, a₁, hs, h₁, hlen, rfl, rfl⟩
    refine ⟨s, a, ⟨hs, rfl⟩, run_bind_eq_ok.2 ⟨(), a₁, h₁, ?_⟩⟩
    rw [if_pos hlen]
    exact run_bind_eq_ok.2 ⟨(), _, run_emit_eq_ok.2 rfl, run_pure_eq_ok.2 ⟨rfl, rfl⟩⟩

/-- An assignment emits the value and a store, and is noted. -/
theorem run_emit_assign {x : Ident} {e : Expr} :
    ((assign x e).emit ctx).run a = .ok (ty, a') ↔
      ∃ v a₁ t, a.symbols.find? x.name = some (.storage v) ∧ v.constant = false ∧
        (e.emit ctx).run a = .ok (v.ty, a₁) ∧ a₁.symbols.markWritten x.name x.pos = .ok t ∧ ty = .void ∧
        a' = ({ a₁ with symbols := t } : Assembly).push (ctx.storeOp v) (some v.slot) x.pos := by
  rw [emit]
  simp only [run_bind_eq_ok, run_assignable, run_requireType_eq_ok, run_markWritten_eq_ok, run_emit_eq_ok, run_pure_eq_ok]
  constructor
  · rintro ⟨v, _, ⟨hv, hc, rfl⟩, _, a₁, he, _, _, ⟨rfl, rfl⟩, _, _, ⟨t, ht, rfl⟩, _, _, rfl, rfl, rfl⟩
    exact ⟨v, _, t, hv, hc, he, ht, rfl, rfl⟩
  · rintro ⟨v, a₁, t, hv, hc, he, ht, rfl, rfl⟩
    exact ⟨v, a, ⟨hv, hc, rfl⟩, _, a₁, he, (), _, ⟨rfl, rfl⟩, (), _, ⟨t, ht, rfl⟩, (), _, rfl, rfl, rfl⟩

/-- A negation emits a zero, the operand and a subtraction. -/
theorem run_emit_neg {e : Expr} :
    ((neg pos e).emit ctx).run a = .ok (ty, a') ↔
      ∃ a₁, (e.emit ctx).run (a.push .lit (some 0) pos) = .ok (ty, a₁) ∧ ty ≠ .void ∧ a' = a₁.push .sub none pos := by
  rw [emit]
  simp only [run_bind_eq_ok, run_requireValue_eq_ok, run_emit_eq_ok, run_pure_eq_ok]
  constructor
  · rintro ⟨_, _, rfl, _, a₁, he, _, _, ⟨hty, rfl⟩, _, _, rfl, rfl, rfl⟩
    exact ⟨_, he, hty, rfl⟩
  · rintro ⟨a₁, he, hty, rfl⟩
    exact ⟨(), _, rfl, _, a₁, he, (), _, ⟨hty, rfl⟩, (), _, rfl, rfl, rfl⟩

/-- A cast emits what its operand does. -/
theorem run_emit_cast {e : Expr} {target : Ident} :
    ((cast e pos target).emit ctx).run a = .ok (ty, a') ↔
      ∃ source, (e.emit ctx).run a = .ok (source, a') ∧ source ≠ .void ∧ Ty.named? target.name = some ty ∧ ty ≠ .void := by
  rw [emit]
  simp only [run_bind_eq_ok, run_requireValue_eq_ok, run_resolveType_eq_ok, run_pure_eq_ok]
  constructor
  · rintro ⟨source, a₁, he, _, _, ⟨hn, hv, rfl⟩, _, _, ⟨hs, rfl⟩, rfl, rfl⟩
    exact ⟨source, he, hs, hn, hv trivial⟩
  · rintro ⟨source, he, hs, hn, hv⟩
    exact ⟨source, a', he, ty, a', ⟨hn, fun _ => hv, rfl⟩, (), a', ⟨hs, rfl⟩, rfl, rfl⟩

/-- An operator emits both operands, which have one type, and its operation. -/
theorem run_emit_binary {left right : Expr} {op : BinaryOp} :
    ((binary left op pos right).emit ctx).run a = .ok (ty, a') ↔
      ∃ operand a₁ a₂, (left.emit ctx).run a = .ok (operand, a₁) ∧ (right.emit ctx).run a₁ = .ok (operand, a₂) ∧
        operand ≠ .void ∧ ty = op.resultType operand ∧ a' = a₂.push op.operation none pos := by
  rw [emit]
  simp only [run_bind_eq_ok, run_requireValue_eq_ok, run_requireType_eq_ok, run_emit_eq_ok, run_pure_eq_ok]
  constructor
  · rintro ⟨operand, a₁, hl, _, a₂, hr, _, _, ⟨hv, rfl⟩, _, _, ⟨rfl, rfl⟩, _, _, rfl, rfl, rfl⟩
    exact ⟨_, a₁, _, hl, hr, hv, rfl, rfl⟩
  · rintro ⟨operand, a₁, a₂, hl, hr, hv, rfl, rfl⟩
    exact ⟨operand, a₁, hl, operand, a₂, hr, (), _, ⟨hv, rfl⟩, (), _, ⟨rfl, rfl⟩, (), _, rfl, rfl, rfl⟩

/-- Arguments are emitted one after the other, each of the type of its parameter. -/
theorem run_emitArguments_cons {param : Ty} {params : List Ty} {e : Expr} {es : List Expr} {u : Unit} :
    (emitArguments ctx (param :: params) (e :: es)).run a = .ok (u, a') ↔
      ∃ a₁, (e.emit ctx).run a = .ok (param, a₁) ∧ (emitArguments ctx params es).run a₁ = .ok (u, a') := by
  rw [emitArguments]
  simp only [run_bind_eq_ok, run_requireType_eq_ok]
  constructor
  · rintro ⟨_, a₁, he, _, _, ⟨rfl, rfl⟩, hs⟩
    exact ⟨_, he, hs⟩
  · rintro ⟨a₁, he, hs⟩
    exact ⟨param, a₁, he, (), a₁, ⟨rfl, rfl⟩, hs⟩

end

/-! ## The code that is emitted -/

/-- What the assembly is after the expression, of type `ty`, has been emitted. -/
structure Emitted (ctx : Context) (e : Expr) (ty : Ty) (a a' : Assembly) : Prop where
  typed : HasType a.symbols.scopes e ty a'.symbols.scopes
  written : a'.symbols.written = a.symbols.written
  code_eq : a'.code = a.code ++ e.code ctx a.symbols
  breaks_eq : a'.breaks = a.breaks

/-- What the assembly is after the expressions, of types `tys`, have been emitted. -/
structure EmittedAll (ctx : Context) (es : List Expr) (tys : List Ty) (a a' : Assembly) : Prop where
  typed : HaveTypes a.symbols.scopes es tys a'.symbols.scopes
  written : a'.symbols.written = a.symbols.written
  code_eq : a'.code = a.code ++ codeOfAll ctx a.symbols es
  breaks_eq : a'.breaks = a.breaks

mutual

/-- An expression that is emitted has a type, and what is appended is its code. -/
theorem emitted {ctx : Context} {e : Expr} {ty : Ty} {a a' : Assembly} (h : (e.emit ctx).run a = .ok (ty, a')) :
    Emitted ctx e ty a a' := by
  cases e with
  | int pos n =>
    obtain ⟨rfl, rfl⟩ := run_emit_int.1 h
    exact ⟨.int, rfl, by simp [code], rfl⟩
  | literal pos kind =>
    rw [emit] at h
    exact (Assembling.run_fail_eq_ok.1 h).elim
  | var x =>
    obtain ⟨v, hv, hinit, rfl, rfl⟩ := run_emit_var.1 h
    refine ⟨.var (SymbolTable.find?_scopes_eq_var.2 ⟨v, hv, rfl, rfl, hinit⟩), rfl, ?_, rfl⟩
    simp [code, SymbolTable.codeFor_of_find? hv, Context.loadCode]
  | call f args =>
    obtain ⟨s, a₁, hs, hargs, hlen, rfl, rfl⟩ := run_emit_call.1 h
    have ih := emittedAll hlen hargs
    refine ⟨.call (SymbolTable.find?_scopes_eq_function.2 ⟨s, hs, rfl, rfl⟩) ih.typed, ih.written, ?_, ih.breaks_eq⟩
    simp [code, ih.code_eq, SymbolTable.codeFor_of_find? hs, callCode]
  | assign x value =>
    obtain ⟨v, a₁, t, hv, hconst, hval, ht, rfl, rfl⟩ := run_emit_assign.1 h
    have ih := emitted hval
    refine ⟨?_, (SymbolTable.written_markWritten ht).trans ih.written, ?_, ih.breaks_eq⟩
    · change HasType _ _ _ t.scopes
      rw [SymbolTable.scopes_markWritten ht]
      exact .assign (SymbolTable.find?_scopes_eq_var.2 ⟨v, hv, rfl, hconst, rfl⟩) ih.typed
    · rw [Assembly.code_push]
      change a₁.code ++ _ = _
      simp [code, ih.code_eq, SymbolTable.codeFor_of_find? hv, Context.storeCode]
  | paren pos inner =>
    rw [emit_paren] at h
    have ih := emitted h
    exact ⟨.paren ih.typed, ih.written, by rw [ih.code_eq, code], ih.breaks_eq⟩
  | neg pos operand =>
    obtain ⟨a₁, hop, hty, rfl⟩ := run_emit_neg.1 h
    have ih := emitted hop
    exact ⟨.neg ih.typed hty, ih.written, by simp [code, ih.code_eq], ih.breaks_eq⟩
  | cast value pos target =>
    obtain ⟨source, hval, hs, hname, hty⟩ := run_emit_cast.1 h
    have ih := emitted hval
    exact ⟨.cast ih.typed hs hname hty, ih.written, by rw [ih.code_eq, code], ih.breaks_eq⟩
  | binary left op pos right =>
    obtain ⟨operand, a₁, a₂, hl, hr, hv, rfl, rfl⟩ := run_emit_binary.1 h
    have ihl := emitted hl
    have ihr := emitted hr
    refine ⟨.binary ihl.typed ihr.typed hv, ihr.written.trans ihl.written, ?_, ihr.breaks_eq.trans ihl.breaks_eq⟩
    simp [code, ihr.code_eq, ihl.code_eq, code_eq_of_written ihl.written]
  | fault error =>
    rw [emit] at h
    exact (Assembling.run_throw_eq_ok.1 h).elim
  | cut read error =>
    rw [emit] at h
    obtain ⟨_, _, _, h⟩ := Assembling.run_bind_eq_ok.1 h
    exact (Assembling.run_throw_eq_ok.1 h).elim

/-- Arguments that are emitted have the types of the parameters, and what is appended is their code. -/
theorem emittedAll {ctx : Context} {es : List Expr} {tys : List Ty} {a a' : Assembly} {u : Unit}
    (hlen : es.length = tys.length) (h : (emitArguments ctx tys es).run a = .ok (u, a')) : EmittedAll ctx es tys a a' := by
  cases es with
  | nil =>
    obtain rfl : tys = [] := List.eq_nil_of_length_eq_zero hlen.symm
    rw [emitArguments] at h
    obtain ⟨-, rfl⟩ := Assembling.run_pure_eq_ok.1 h
    exact ⟨.nil, rfl, by simp [codeOfAll], rfl⟩
  | cons e es =>
    cases tys with
    | nil => simp at hlen
    | cons ty tys =>
      obtain ⟨a₁, he, hes⟩ := run_emitArguments_cons.1 h
      have ih := emitted he
      have ihs := emittedAll (Nat.succ.inj hlen) hes
      refine ⟨.cons ih.typed ihs.typed, ihs.written.trans ih.written, ?_, ihs.breaks_eq.trans ih.breaks_eq⟩
      simp [codeOfAll, ihs.code_eq, ih.code_eq, codeOfAll_eq_of_written ih.written]

end

mutual

/-- An expression that has a type is emitted. -/
theorem exists_emit (ctx : Context) {e : Expr} {ty : Ty} {a : Assembly} {Γ' : Scopes}
    (h : HasType a.symbols.scopes e ty Γ') : ∃ a', (e.emit ctx).run a = .ok (ty, a') ∧ a'.symbols.scopes = Γ' := by
  cases h with
  | int => exact ⟨_, run_emit_int.2 ⟨rfl, rfl⟩, rfl⟩
  | var hx =>
    obtain ⟨v, hv, rfl, -, hinit⟩ := SymbolTable.find?_scopes_eq_var.1 hx
    exact ⟨_, run_emit_var.2 ⟨v, hv, hinit, rfl, rfl⟩, rfl⟩
  | call hf hargs =>
    obtain ⟨s, hs, rfl, rfl⟩ := SymbolTable.find?_scopes_eq_function.1 hf
    obtain ⟨a₁, h₁, rfl⟩ := exists_emitArguments ctx hargs
    exact ⟨_, run_emit_call.2 ⟨s, a₁, hs, h₁, hargs.length_eq, rfl, rfl⟩, rfl⟩
  | assign hx hval =>
    obtain ⟨v, hv, rfl, hconst, -⟩ := SymbolTable.find?_scopes_eq_var.1 hx
    obtain ⟨a₁, h₁, rfl⟩ := exists_emit ctx hval
    have hfound := SymbolTable.isSome_find?_of_written (emitted h₁).written hv
    obtain ⟨t, ht⟩ := SymbolTable.exists_markWritten_iff.2 hfound
    exact ⟨_, run_emit_assign.2 ⟨v, a₁, t, hv, hconst, h₁, ht, rfl, rfl⟩, SymbolTable.scopes_markWritten ht⟩
  | paren hinner =>
    rw [emit_paren]
    exact exists_emit ctx hinner
  | neg hop hty =>
    obtain ⟨a₁, h₁, rfl⟩ := exists_emit ctx (a := a.push .lit (some 0) _) hop
    exact ⟨_, run_emit_neg.2 ⟨a₁, h₁, hty, rfl⟩, rfl⟩
  | cast hval hs hname hty =>
    obtain ⟨a₁, h₁, rfl⟩ := exists_emit ctx hval
    exact ⟨_, run_emit_cast.2 ⟨_, h₁, hs, hname, hty⟩, rfl⟩
  | binary hl hr hv =>
    obtain ⟨a₁, h₁, rfl⟩ := exists_emit ctx hl
    obtain ⟨a₂, h₂, rfl⟩ := exists_emit ctx hr
    exact ⟨_, run_emit_binary.2 ⟨_, a₁, a₂, h₁, h₂, hv, rfl, rfl⟩, rfl⟩

/-- Arguments that have the types are emitted. -/
theorem exists_emitArguments (ctx : Context) {es : List Expr} {tys : List Ty} {a : Assembly} {Γ' : Scopes}
    (h : HaveTypes a.symbols.scopes es tys Γ') :
    ∃ a', (emitArguments ctx tys es).run a = .ok ((), a') ∧ a'.symbols.scopes = Γ' := by
  cases h with
  | nil => exact ⟨a, by rw [emitArguments]; exact Assembling.run_pure_eq_ok.2 ⟨rfl, rfl⟩, rfl⟩
  | cons he hes =>
    obtain ⟨a₁, h₁, rfl⟩ := exists_emit ctx he
    obtain ⟨a₂, h₂, rfl⟩ := exists_emitArguments ctx hes
    exact ⟨a₂, run_emitArguments_cons.2 ⟨a₁, h₁, h₂⟩, rfl⟩

end

end Expr

end C0Stack
