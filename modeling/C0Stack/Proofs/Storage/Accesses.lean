import C0Stack.Proofs.Emission.CompilationUnit

/-!
# Reads and writes

While a statement is emitted, its expressions are, and each use of a name in them reads the slot of the name, or writes it. There is
one more kind of write, that of the value that a variable is declared with. Here these accesses are traced back from the code: every
`LOD`, `LODG`, `STO` and `STOG` in the code of a statement is that of an access in the statement (`Emission.Stands.exists_access`).
-/

namespace C0Stack

open Assembling

/-- What is done to a slot. -/
inductive Access where
  | read
  | write
deriving DecidableEq, Repr

namespace Access

/-- The operation that does it, where the slot is that of the variable. -/
def op (ctx : Context) (v : Variable) : Access → Operation
  | read => ctx.loadOp v
  | write => ctx.storeOp v

/-- A variable may be read when it has been written, and written if it is not constant. -/
def Allowed (v : Variable) : Access → Prop
  | read => v.initialized = true
  | write => v.constant = false

/-- The instruction at the address accesses the variable that the name stands for in the assembly. -/
structure Made (ctx : Context) (k : Access) (x : Ident) (b : Assembly) (v : Variable) (n : Nat) (i : Instruction) : Prop where
  address : b.nextAddress = n
  found : b.symbols.find? x.name = some (.storage v)
  instruction : i = ⟨k.op ctx v, some v.slot⟩

end Access

/-! ## Expressions -/

namespace Expr

mutual

/-- While the expression is emitted, starting from the first assembly, the slot of the name is accessed by the instruction that is
emitted next to the second one. -/
inductive Accesses (ctx : Context) : Expr → Assembly → Access → Ident → Assembly → Prop
  | var {x : Ident} {a : Assembly} : Accesses ctx (.var x) a .read x a
  | argument {f y : Ident} {args : List Expr} {a b : Assembly} {k : Access} :
      AccessesAny ctx args a k y b → Accesses ctx (.call f args) a k y b
  | value {x y : Ident} {e : Expr} {a b : Assembly} {k : Access} : Accesses ctx e a k y b → Accesses ctx (.assign x e) a k y b
  | assign {x : Ident} {e : Expr} {ty : Ty} {a a₁ : Assembly} :
      (e.emit ctx).run a = .ok (ty, a₁) → Accesses ctx (.assign x e) a .write x a₁
  | paren {pos : Position} {y : Ident} {e : Expr} {a b : Assembly} {k : Access} :
      Accesses ctx e a k y b → Accesses ctx (.paren pos e) a k y b
  | neg {pos : Position} {y : Ident} {e : Expr} {a b : Assembly} {k : Access} :
      Accesses ctx e (a.push .lit (some 0) pos) k y b → Accesses ctx (.neg pos e) a k y b
  | cast {pos : Position} {target y : Ident} {e : Expr} {a b : Assembly} {k : Access} :
      Accesses ctx e a k y b → Accesses ctx (.cast e pos target) a k y b
  | left {pos : Position} {op : BinaryOp} {y : Ident} {left right : Expr} {a b : Assembly} {k : Access} :
      Accesses ctx left a k y b → Accesses ctx (.binary left op pos right) a k y b
  | right {pos : Position} {op : BinaryOp} {y : Ident} {left right : Expr} {ty : Ty} {a a₁ b : Assembly} {k : Access} :
      (left.emit ctx).run a = .ok (ty, a₁) → Accesses ctx right a₁ k y b → Accesses ctx (.binary left op pos right) a k y b

/-- The same for expressions that are emitted one after the other. -/
inductive AccessesAny (ctx : Context) : List Expr → Assembly → Access → Ident → Assembly → Prop
  | head {y : Ident} {e : Expr} {es : List Expr} {a b : Assembly} {k : Access} :
      Accesses ctx e a k y b → AccessesAny ctx (e :: es) a k y b
  | tail {y : Ident} {e : Expr} {es : List Expr} {ty : Ty} {a a₁ b : Assembly} {k : Access} :
      (e.emit ctx).run a = .ok (ty, a₁) → AccessesAny ctx es a₁ k y b → AccessesAny ctx (e :: es) a k y b

end

end Expr

/-- The operation depends on the scope of the variable only. -/
theorem Context.storeOp_congr (ctx : Context) {v w : Variable} (h : w.scope = v.scope) : ctx.storeOp w = ctx.storeOp v := by
  unfold storeOp isRemote
  rw [h]

namespace Expr

section

variable {ctx : Context} {lines : List CodeLine} {n : Nat} {line : CodeLine}

/-! The code of the parts of an expression stands where they are emitted. -/

/-- The operand of a negation stands behind the zero. -/
theorem stands_operand {pos : Position} {e : Expr} {a : Assembly}
    (hs : StandsAt lines a.nextAddress ((neg pos e).code ctx a.symbols)) :
    StandsAt lines (a.push .lit (some 0) pos).nextAddress (e.code ctx a.symbols ++ [⟨⟨.sub, none⟩, pos⟩]) := by
  rw [code] at hs
  rw [Assembly.nextAddress_push]
  exact @StandsAt.of_cons lines [] _ _ _ hs

/-- The right operand stands behind the left one. -/
theorem stands_right {left right : Expr} {op : BinaryOp} {pos : Position} {ty : Ty} {a a₁ : Assembly}
    (hs : StandsAt lines a.nextAddress ((binary left op pos right).code ctx a.symbols)) (hl : Emitted ctx left ty a a₁) :
    StandsAt lines a₁.nextAddress (right.code ctx a₁.symbols ++ [⟨⟨op.operation, none⟩, pos⟩]) := by
  rw [code] at hs
  rw [code_eq_of_written hl.written]
  exact hl.stands_behind hs

/-- The other arguments stand behind the first. -/
theorem stands_arguments {e : Expr} {es : List Expr} {ty : Ty} {a a₁ : Assembly}
    (hs : StandsAt lines a.nextAddress (codeOfAll ctx a.symbols (e :: es))) (he : Emitted ctx e ty a a₁) :
    StandsAt lines a₁.nextAddress (codeOfAll ctx a₁.symbols es) := by
  rw [codeOfAll] at hs
  rw [codeOfAll_eq_of_written he.written]
  exact he.stands_behind hs

mutual

/-- Every instruction in the code of an expression that accesses a slot is that of an access in the expression. -/
theorem exists_accesses {e : Expr} {ty : Ty} {a a' : Assembly} (h : (e.emit ctx).run a = .ok (ty, a'))
    (hs : StandsAt lines a.nextAddress (e.code ctx a.symbols)) (hn : a.nextAddress ≤ n) (hlt : n < a'.nextAddress)
    (hline : lines[n]? = some line) (hop : line.instruction.op.isAccess = true) :
    ∃ k x b v, e.Accesses ctx a k x b ∧ k.Made ctx x b v n line.instruction ∧ k.Allowed v := by
  cases e with
  | int pos value =>
    obtain ⟨-, rfl⟩ := run_emit_int.1 h
    rw [code] at hs
    obtain ⟨-, rfl⟩ := hs.eq_of_push hn hlt hline
    cases hop
  | literal pos kind =>
    rw [emit] at h
    exact (run_fail_eq_ok.1 h).elim
  | var x =>
    obtain ⟨v, hv, hinit, -, rfl⟩ := run_emit_var.1 h
    rw [code, SymbolTable.codeFor_of_find? hv, Context.loadCode] at hs
    obtain ⟨rfl, rfl⟩ := hs.eq_of_push hn hlt hline
    exact ⟨.read, x, a, v, .var, ⟨rfl, hv, rfl⟩, hinit⟩
  | call f args =>
    obtain ⟨s, a₁, hf, hargs, hlen, -, rfl⟩ := run_emit_call.1 h
    rw [code, SymbolTable.codeFor_of_find? hf, callCode] at hs
    rcases (emittedAll hlen hargs).lt_or_eq hs (Assembly.le_of_lt_push hlt) hline with hlt | ⟨-, rfl⟩
    · obtain ⟨k, x, b, v, haccess, hmade⟩ := exists_accessesAny hlen hargs hs.left hn hlt hline hop
      exact ⟨k, x, b, v, .argument haccess, hmade⟩
    · cases hop
  | assign x value =>
    obtain ⟨v, a₁, t, hv, hconstant, hval, ht, -, rfl⟩ := run_emit_assign.1 h
    rw [code, SymbolTable.codeFor_of_find? hv, Context.storeCode] at hs
    rcases (emitted hval).lt_or_eq hs (Assembly.le_of_lt_push hlt) hline with hlt | ⟨rfl, rfl⟩
    · obtain ⟨k, y, b, w, haccess, hmade⟩ := exists_accesses hval hs.left hn hlt hline hop
      exact ⟨k, y, b, w, .value haccess, hmade⟩
    · -- the variable that is found behind the value is the one that was found in front of it
      obtain ⟨w, hw, -, hc, hslot, hscope⟩ := SymbolTable.find?_storage_of_written (emitted hval).written.symm hv
      refine ⟨.write, x, a₁, w, .assign hval, ⟨rfl, hw, ?_⟩, hc.trans hconstant⟩
      rw [hslot, Access.op, ctx.storeOp_congr hscope]
  | paren pos inner =>
    rw [emit] at h
    rw [code] at hs
    obtain ⟨k, x, b, v, haccess, hmade⟩ := exists_accesses h hs hn hlt hline hop
    exact ⟨k, x, b, v, .paren haccess, hmade⟩
  | neg pos operand =>
    obtain ⟨a₁, hoperand, -, rfl⟩ := run_emit_neg.1 h
    have hinner := stands_operand hs
    rcases Nat.lt_or_eq_of_le hn with hgt | rfl
    · rcases (emitted hoperand).lt_or_eq hinner (Assembly.le_of_lt_push hlt) hline with hlt | ⟨-, rfl⟩
      · replace hgt : (a.push .lit (some 0) pos).nextAddress ≤ n := Nat.le_trans (Nat.le_of_eq (a.nextAddress_push ..)) hgt
        obtain ⟨k, x, b, v, haccess, hmade⟩ := exists_accesses hoperand hinner.left hgt hlt hline hop
        exact ⟨k, x, b, v, .neg haccess, hmade⟩
      · cases hop
    · rw [code] at hs
      rw [hs.getElem?_head] at hline
      cases hline
      cases hop
  | cast value pos target =>
    obtain ⟨source, hval, -⟩ := run_emit_cast.1 h
    rw [code] at hs
    obtain ⟨k, x, b, v, haccess, hmade⟩ := exists_accesses hval hs hn hlt hline hop
    exact ⟨k, x, b, v, .cast haccess, hmade⟩
  | binary left op pos right =>
    obtain ⟨operand, a₁, a₂, hl, hr, -, -, rfl⟩ := run_emit_binary.1 h
    have hbehind := stands_right hs (emitted hl)
    rw [code] at hs
    rcases Nat.lt_or_ge n a₁.nextAddress with hmid | hmid
    · obtain ⟨k, x, b, v, haccess, hmade⟩ := exists_accesses hl hs.left hn hmid hline hop
      exact ⟨k, x, b, v, .left haccess, hmade⟩
    · rcases (emitted hr).lt_or_eq hbehind (Assembly.le_of_lt_push hlt) hline with hlt | ⟨-, rfl⟩
      · obtain ⟨k, x, b, v, haccess, hmade⟩ := exists_accesses hr hbehind.left hmid hlt hline hop
        exact ⟨k, x, b, v, .right hl haccess, hmade⟩
      · cases op <;> cases hop
  | fault error =>
    rw [emit] at h
    exact (run_throw_eq_ok.1 h).elim
  | cut read error =>
    rw [emit, run_bind_eq_ok] at h
    obtain ⟨_, _, -, h⟩ := h
    exact (run_throw_eq_ok.1 h).elim

/-- An instruction of arguments that accesses a slot is that of a name in them. -/
theorem exists_accessesAny {es : List Expr} {tys : List Ty} (hlen : es.length = tys.length) {a a' : Assembly} {u : Unit}
    (h : (emitArguments ctx tys es).run a = .ok (u, a')) (hs : StandsAt lines a.nextAddress (codeOfAll ctx a.symbols es))
    (hn : a.nextAddress ≤ n) (hlt : n < a'.nextAddress) (hline : lines[n]? = some line)
    (hop : line.instruction.op.isAccess = true) :
    ∃ k x b v, AccessesAny ctx es a k x b ∧ k.Made ctx x b v n line.instruction ∧ k.Allowed v := by
  cases es with
  | nil =>
    cases tys with
    | nil =>
      rw [emitArguments] at h
      obtain ⟨-, rfl⟩ := run_pure_eq_ok.1 h
      omega
    | cons => cases hlen
  | cons e es =>
    cases tys with
    | nil => cases hlen
    | cons ty tys =>
      obtain ⟨a₁, he, hes⟩ := run_emitArguments_cons.1 h
      have hbehind := stands_arguments hs (emitted he)
      rw [codeOfAll] at hs
      rcases Nat.lt_or_ge n a₁.nextAddress with hmid | hmid
      · obtain ⟨k, x, b, v, haccess, hmade⟩ := exists_accesses he hs.left hn hmid hline hop
        exact ⟨k, x, b, v, .head haccess, hmade⟩
      · obtain ⟨k, x, b, v, haccess, hmade⟩ := exists_accessesAny (Nat.succ.inj hlen) hes hbehind hmid hlt hline hop
        exact ⟨k, x, b, v, .tail he haccess, hmade⟩

end

end

end Expr

/-! ## Statements -/

namespace Emission

/-- An expression of the statement accesses the slot of the name. -/
def Accesses (E : Emission) (k : Access) (x : Ident) (b : Assembly) : Prop := ∃ e a, E.Evaluates e a ∧ e.Accesses E.ctx a k x b

section

variable {calls : Nat → Option Signature} {lines : List CodeLine} {n : Nat} {line : CodeLine}

/-- Every instruction in the code of a statement that accesses a slot is that of an access in the statement, or writes the value
that a variable is declared with. -/
theorem Stands.exists_access {E : Emission} (h : E.Stands calls lines) (hn : E.before.nextAddress ≤ n)
    (hlt : n < E.after.nextAddress) (hline : lines[n]? = some line)
    (hop : line.instruction.op.isAccess = true) :
    (∃ E' k x b v, E.Covers E' ∧ E'.Accesses k x b ∧ k.Made E'.ctx x b v n line.instruction ∧ k.Allowed v) ∨
      ∃ E' x v b, E.Covers E' ∧ E'.Initializes x v b ∧ b.nextAddress = n ∧
        line.instruction = ⟨E'.ctx.storeOp v, some v.slot⟩ := by
  have horigin : Origin lines E n line.instruction := origin_of_stands h hn hlt hline
  cases horigin with
  | part E' hhas hn' hlt' =>
    have hsmaller := hhas.sizeOf_lt
    rcases Stands.exists_access (h.of_has hhas) hn' hlt' hline hop with ⟨E'', k, x, b, v, hcovers, hE''⟩ |
      ⟨E'', x, v, b, hcovers, hE''⟩
    · exact .inl ⟨E'', k, x, b, v, .head hhas hcovers, hE''⟩
    · exact .inr ⟨E'', x, v, b, .head hhas hcovers, hE''⟩
  | value e ty a a' heval he hs hn' hlt' =>
    obtain ⟨k, x, b, v, haccess, hmade, hallowed⟩ := Expr.exists_accesses he hs hn' hlt' hline hop
    exact .inl ⟨E, k, x, b, v, .refl, ⟨e, a, heval, haccess⟩, hmade, hallowed⟩
  | init x v b hinit hb hi => exact .inr ⟨E, x, v, b, .refl, hinit, hb, hi⟩
  | control hcontrol _ =>
    rw [hcontrol] at hop
    cases hop
termination_by sizeOf E.stmt

end

end Emission

end C0Stack
