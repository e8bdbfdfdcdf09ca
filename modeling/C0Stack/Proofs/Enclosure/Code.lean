import C0Stack.Proofs.Code.Lines
import C0Stack.Proofs.Emission.CompilationUnit

/-!
# Statements in a function

What is declared outside functions belongs to the outermost scope. In the body of a function the same declarations belong to the scope
of the function: `SymbolTable.enclose` makes this of the table. Where statements are accepted outside functions and every return in
them is one of no value, they are accepted in a function that returns none, and their code is the same but for the jumps, which go one
address further where the code stands one address further (`Stmt.exists_enclosed`).
-/

namespace C0Stack

/-! ## Tables -/

/-- What was declared in the outermost scope, declared in a nested one. -/
def Binding.enclose : Binding → Binding
  | storage v => storage { v with scope := .nested }
  | function f => function f

/-- A write may be noted before or after. -/
theorem Binding.enclose_markWritten (b : Binding) : b.markWritten.enclose = b.enclose.markWritten := by
  cases b <;> rfl

def Frame.enclose (f : Frame) : Frame := { f with bindings := f.bindings.map fun (x, b) => (x, b.enclose) }

/-- The table in which the outermost scope has become that of a function, with another scope around it. -/
def SymbolTable.enclose (outer : Frame) (t : SymbolTable) : SymbolTable := ⟨t.frames.map Frame.enclose, outer⟩

namespace Frame

/-- In a frame, each name is found as declared in a nested scope. -/
theorem find?_enclose (f : Frame) (x : String) : f.enclose.find? x = (f.find? x).map Binding.enclose :=
  lookup_map_snd (fun _ => Binding.enclose) f.bindings x

/-- A write may be noted in a frame before or after. -/
theorem enclose_markWritten (f : Frame) (x : String) : (f.markWritten x).enclose = f.enclose.markWritten x := by
  unfold markWritten enclose
  simp only [List.map_map, mk.injEq, and_true]
  refine List.map_congr_left fun binding _ => ?_
  obtain ⟨y, b⟩ := binding
  simp only [Function.comp_apply]
  split
  · rw [b.enclose_markWritten]
  · rfl

end Frame

namespace SymbolTable

variable {outer : Frame} {t t' : SymbolTable} {x : String} {pos : Position}

/-- The frames of the table, and the one around them. -/
theorem frames_enclose (outer : Frame) (t : SymbolTable) : (t.enclose outer).frames = t.frames.map Frame.enclose ++ [outer] := rfl

theorem current_enclose (outer : Frame) (t : SymbolTable) : (t.enclose outer).current = t.current.enclose := by
  unfold enclose
  rw [frames_eq_cons]
  rfl

theorem enclose_enterBlock (outer : Frame) (t : SymbolTable) : t.enterBlock.enclose outer = (t.enclose outer).enterBlock := by
  unfold enterBlock
  rw [current_enclose]
  rfl

/-- A block is closed before or after. -/
theorem enclose_leave (outer : Frame) (h : t.nested ≠ []) : t.leave.enclose outer = (t.enclose outer).leave := by
  obtain ⟨nested, outermost⟩ := t
  cases nested with
  | nil => exact absurd rfl h
  | cons f nested => rfl

/-- What is found is found, as declared in a nested scope. -/
theorem find?_enclose (outer : Frame) {b : Binding} (h : t.find? x = some b) : (t.enclose outer).find? x = some b.enclose := by
  unfold find? at h ⊢
  rw [frames_enclose, List.findSome?_append, List.findSome?_map]
  have hframes : t.frames.findSome? ((fun f => f.find? x) ∘ Frame.enclose) = some b.enclose := by
    have hmap : ((fun f : Frame => f.find? x) ∘ Frame.enclose) = Option.map Binding.enclose ∘ fun f => f.find? x :=
      funext fun f => f.find?_enclose x
    rw [hmap, ← List.map_findSome?, h]
    rfl
  rw [hframes]
  rfl

/-- A declaration succeeds, and takes the same slot in the scope of the function. -/
theorem declare_enclose (outer : Frame) {constant : Bool} {ty : Ty} {v : Variable}
    (h : t.declare x constant ty pos = .ok (v, t')) :
    (t.enclose outer).declare x constant ty pos = .ok ({ v with scope := .nested }, t'.enclose outer) := by
  obtain ⟨hx, rfl, rfl⟩ := declare_eq_ok.1 h
  refine declare_eq_ok.2 ⟨?_, ?_, ?_⟩
  · rw [current_enclose, Frame.find?_enclose, hx]
    rfl
  · rw [current_enclose]
    unfold scope enclose
    rw [frames_eq_cons]
    rfl
  · apply frames_injective
    rw [frames_enclose, frames_setCurrent, frames_setCurrent, frames_enclose, current_enclose, frames_eq_cons t]
    rfl

/-- A write is noted in the same frame. -/
theorem markFirst?_enclose {fs fs' : List Frame} (h : markFirst? x fs = some fs') :
    markFirst? x (fs.map Frame.enclose) = some (fs'.map Frame.enclose) := by
  induction fs generalizing fs' with
  | nil => cases h
  | cons f fs ih =>
    rw [markFirst?] at h
    rw [List.map_cons, markFirst?, f.find?_enclose]
    cases hf : f.find? x with
    | some b =>
      rw [hf] at h
      cases h
      simp [f.enclose_markWritten]
    | none =>
      rw [hf] at h
      obtain ⟨gs, hgs, rfl⟩ := Option.map_eq_some_iff.1 h
      simp [ih hgs]

/-- A write is noted in the same scope. -/
theorem markWritten_enclose (outer : Frame) (h : t.markWritten x pos = .ok t') :
    (t.enclose outer).markWritten x pos = .ok (t'.enclose outer) := by
  rw [markWritten_eq_ok] at h ⊢
  rw [frames_enclose, markFirst?_append, markFirst?_enclose h]
  rfl

end SymbolTable

/-! ## Expressions -/

/-- What is around a statement, where a function that returns no value is around all. -/
def Context.enclose (ctx : Context) : Context := ⟨some .void, ctx.loop.map (· + 1)⟩

section

variable {outer : Frame} {ctx : Context}

/-- Outside functions all variables are near, and what is declared in a function is. -/
theorem Context.loadOp_enclose (h : ctx.function = none) (v : Variable) :
    ctx.enclose.loadOp { v with scope := .nested } = ctx.loadOp v := by
  simp [loadOp, isRemote, h]

theorem Context.storeOp_enclose (h : ctx.function = none) (v : Variable) :
    ctx.enclose.storeOp { v with scope := .nested } = ctx.storeOp v := by
  simp [storeOp, isRemote, h]

namespace Expr

mutual

/-- What is accepted outside functions is accepted in one, and has the same code. -/
theorem exists_enclosed (hctx : ctx.function = none) {e : Expr} {ty : Ty} {a a' b : Assembly}
    (hab : b.symbols = a.symbols.enclose outer) (h : (e.emit ctx).run a = .ok (ty, a')) :
    ∃ b', (e.emit ctx.enclose).run b = .ok (ty, b') ∧ b'.symbols = a'.symbols.enclose outer ∧
      e.code ctx.enclose b.symbols = e.code ctx a.symbols := by
  cases e with
  | int pos n =>
    obtain ⟨rfl, rfl⟩ := run_emit_int.1 h
    exact ⟨_, run_emit_int.2 ⟨rfl, rfl⟩, hab, by simp only [code]⟩
  | literal pos kind =>
    rw [emit] at h
    exact (Assembling.run_fail_eq_ok.1 h).elim
  | var x =>
    obtain ⟨v, hv, hinit, rfl, rfl⟩ := run_emit_var.1 h
    have hv' := SymbolTable.find?_enclose outer hv
    rw [← hab] at hv'
    refine ⟨_, run_emit_var.2 ⟨_, hv', hinit, rfl, rfl⟩, hab, ?_⟩
    simp only [code, SymbolTable.codeFor_of_find? hv, SymbolTable.codeFor_of_find? hv', Binding.enclose, Context.loadCode,
      Context.loadOp_enclose hctx]
  | call f args =>
    obtain ⟨s, a₁, hs, hargs, hlen, rfl, rfl⟩ := run_emit_call.1 h
    have hs' := SymbolTable.find?_enclose outer hs
    rw [← hab] at hs'
    obtain ⟨b₁, hargs', hab₁, hcode⟩ := exists_enclosedAll hctx hlen hab hargs
    refine ⟨_, run_emit_call.2 ⟨s, b₁, hs', hargs', hlen, rfl, rfl⟩, hab₁, ?_⟩
    simp only [code, SymbolTable.codeFor_of_find? hs, SymbolTable.codeFor_of_find? hs', Binding.enclose, callCode, hcode]
  | assign x value =>
    obtain ⟨v, a₁, t, hv, hconst, hval, ht, rfl, rfl⟩ := run_emit_assign.1 h
    have hv' := SymbolTable.find?_enclose outer hv
    rw [← hab] at hv'
    obtain ⟨b₁, hval', hab₁, hcode⟩ := exists_enclosed hctx hab hval
    have ht' := SymbolTable.markWritten_enclose outer ht
    rw [← hab₁] at ht'
    refine ⟨_, run_emit_assign.2 ⟨_, b₁, _, hv', hconst, hval', ht', rfl, rfl⟩, rfl, ?_⟩
    simp only [code, SymbolTable.codeFor_of_find? hv, SymbolTable.codeFor_of_find? hv', Binding.enclose, Context.storeCode,
      Context.storeOp_enclose hctx, hcode]
  | paren pos inner =>
    rw [emit] at h ⊢
    obtain ⟨b', h', hab', hcode⟩ := exists_enclosed hctx hab h
    exact ⟨b', h', hab', by simp only [code, hcode]⟩
  | neg pos operand =>
    obtain ⟨a₁, hop, hty, rfl⟩ := run_emit_neg.1 h
    have hlit : (b.push .lit (some 0) pos).symbols = (a.push .lit (some 0) pos).symbols.enclose outer := hab
    obtain ⟨b₁, hop', hab₁, hcode⟩ := exists_enclosed hctx hlit hop
    rw [Assembly.symbols_push, Assembly.symbols_push] at hcode
    exact ⟨_, run_emit_neg.2 ⟨b₁, hop', hty, rfl⟩, hab₁, by simp only [code, hcode]⟩
  | cast value pos target =>
    obtain ⟨source, hval, hs, hname, hty⟩ := run_emit_cast.1 h
    obtain ⟨b', hval', hab', hcode⟩ := exists_enclosed hctx hab hval
    exact ⟨b', run_emit_cast.2 ⟨source, hval', hs, hname, hty⟩, hab', by simp only [code, hcode]⟩
  | binary left op pos right =>
    obtain ⟨operand, a₁, a₂, hl, hr, hv, rfl, rfl⟩ := run_emit_binary.1 h
    obtain ⟨b₁, hl', hab₁, hcode₁⟩ := exists_enclosed hctx hab hl
    obtain ⟨b₂, hr', hab₂, hcode₂⟩ := exists_enclosed hctx hab₁ hr
    rw [code_eq_of_written (emitted hl).written, code_eq_of_written (emitted hl').written] at hcode₂
    exact ⟨_, run_emit_binary.2 ⟨operand, b₁, b₂, hl', hr', hv, rfl, rfl⟩, hab₂, by simp only [code, hcode₁, hcode₂]⟩
  | fault error =>
    rw [emit] at h
    exact (Assembling.run_throw_eq_ok.1 h).elim
  | cut read error =>
    rw [emit] at h
    obtain ⟨_, _, _, h⟩ := Assembling.run_bind_eq_ok.1 h
    exact (Assembling.run_throw_eq_ok.1 h).elim

/-- Arguments that are accepted outside functions are accepted in one, and have the same code. -/
theorem exists_enclosedAll (hctx : ctx.function = none) {es : List Expr} {tys : List Ty} {a a' b : Assembly}
    (hlen : es.length = tys.length) (hab : b.symbols = a.symbols.enclose outer)
    (h : (emitArguments ctx tys es).run a = .ok ((), a')) :
    ∃ b', (emitArguments ctx.enclose tys es).run b = .ok ((), b') ∧ b'.symbols = a'.symbols.enclose outer ∧
      codeOfAll ctx.enclose b.symbols es = codeOfAll ctx a.symbols es := by
  cases es with
  | nil =>
    obtain rfl : tys = [] := List.eq_nil_of_length_eq_zero hlen.symm
    rw [emitArguments] at h ⊢
    obtain ⟨-, rfl⟩ := Assembling.run_pure_eq_ok.1 h
    exact ⟨b, Assembling.run_pure_eq_ok.2 ⟨rfl, rfl⟩, hab, by simp only [codeOfAll]⟩
  | cons e es =>
    cases tys with
    | nil => simp at hlen
    | cons ty tys =>
      obtain ⟨a₁, he, hes⟩ := run_emitArguments_cons.1 h
      obtain ⟨b₁, he', hab₁, hcode₁⟩ := exists_enclosed hctx hab he
      obtain ⟨b₂, hes', hab₂, hcode₂⟩ := exists_enclosedAll hctx (Nat.succ.inj hlen) hab₁ hes
      rw [codeOfAll_eq_of_written (emitted he).written, codeOfAll_eq_of_written (emitted he').written] at hcode₂
      exact ⟨b₂, run_emitArguments_cons.2 ⟨b₁, he', hes'⟩, hab₂, by simp only [codeOfAll, hcode₁, hcode₂]⟩

end

end Expr

/-- `a` is an assembly outside functions and `b` one in a function, where the code stands one address further. -/
structure Assembly.Encloses (outer : Frame) (a b : Assembly) : Prop where
  symbols_eq : b.symbols = a.symbols.enclose outer
  nextAddress_eq : b.nextAddress = a.nextAddress + 1

theorem Assembly.Encloses.push {a b : Assembly} (h : Encloses outer a b) (op : Operation) (operand operand' : Option Nat)
    (pos : Position) : Encloses outer (a.push op operand pos) (b.push op operand' pos) :=
  ⟨h.symbols_eq, by rw [nextAddress_push, nextAddress_push, h.nextAddress_eq]⟩

/-- A jump is given its target in both. -/
theorem Assembly.Encloses.patch {a b : Assembly} (h : Encloses outer a b) (address address' : Nat) :
    Encloses outer (a.patch address) (b.patch address') :=
  ⟨h.symbols_eq, by rw [nextAddress_patch, nextAddress_patch, h.nextAddress_eq]⟩

/-- The expression, emitted in a function where the code stands one address further, has the same type and the same code. `a` and
`a'` are the assembly in front of it and behind it outside of functions, `b` and `b'` in the function. -/
structure Expr.Enclosed (outer : Frame) (ctx : Context) (e : Expr) (ty : Ty) (a a' b b' : Assembly) : Prop where
  emitted : Emitted ctx e ty a a'
  run : (e.emit ctx.enclose).run b = .ok (ty, b')
  encloses : a'.Encloses outer b'
  code_eq : e.code ctx.enclose b.symbols = e.code ctx a.symbols

/-- An expression that is accepted outside functions is accepted in one, one address further. -/
theorem Expr.exists_encloses (hctx : ctx.function = none) {e : Expr} {ty : Ty} {a a' b : Assembly}
    (hab : a.Encloses outer b) (h : (e.emit ctx).run a = .ok (ty, a')) : ∃ b', Enclosed outer ctx e ty a a' b b' := by
  obtain ⟨b', h', hsymbols, hcode⟩ := exists_enclosed hctx hab.symbols_eq h
  refine ⟨b', Expr.emitted h, h', ⟨hsymbols, ?_⟩, hcode⟩
  rw [(Expr.emitted h').nextAddress_eq, (Expr.emitted h).nextAddress_eq, hcode, hab.nextAddress_eq, Nat.add_right_comm]

/-! ## Statements -/

/-- The instruction in code that stands one address further: the target of a jump does too. -/
def Instruction.moved (i : Instruction) : Instruction :=
  match i.op with
  | .jmp | .jz => { i with operand := i.operand.map (· + 1) }
  | _ => i

def CodeLine.moved (line : CodeLine) : CodeLine := { line with instruction := line.instruction.moved }

/-- What an expression emits is no jump. -/
theorem Instruction.moved_of_line {remote : Prop} {callee : Signature → Prop} {i : Instruction}
    (h : Expr.Line remote callee i) : i.moved = i := by
  cases h with
  | operator op => cases op <;> rfl
  | _ => rfl

/-- There are no jumps in the code of an expression. -/
theorem Expr.map_moved_code (ctx : Context) (t : SymbolTable) (e : Expr) : (e.code ctx t).map CodeLine.moved = e.code ctx t := by
  conv_rhs => rw [← List.map_id (e.code ctx t)]
  refine List.map_congr_left fun line hline => ?_
  have hcalls : Line ctx.function.isSome (fun _ => True) line.instruction := line_of_calls (fun _ _ _ => trivial) hline
  have hmoved := Instruction.moved_of_line hcalls
  unfold CodeLine.moved
  rw [hmoved]
  rfl

theorem Context.moved_store (ctx : Context) (v : Variable) (pos : Position) :
    CodeLine.moved ⟨⟨ctx.storeOp v, some v.slot⟩, pos⟩ = ⟨⟨ctx.storeOp v, some v.slot⟩, pos⟩ := by
  unfold CodeLine.moved
  rw [Instruction.moved_of_line (ctx.line_store (fun _ => True) v)]

/-- Every return inside the statement is one of no value. -/
def Emission.ReturnsNothing (E : Emission) : Prop := ∀ E' ty n, E.Covers E' → E'.Returns ty n → ty = .void

/-- A part of a statement returns nothing if the whole does not. -/
theorem Emission.ReturnsNothing.of_has {E E' : Emission} (h : E.ReturnsNothing) (hE : E.Has E') : E'.ReturnsNothing :=
  fun E'' ty n hcovers hreturns => h E'' ty n (.head hE hcovers) hreturns

namespace Stmt

open Assembling

/-- The statement, emitted in a function where the code stands one address further, has the same code but for the jumps. `a` and `a'`
are the assembly in front of it and behind it outside of functions, `b` and `b'` in the function. -/
structure Enclosed (outer : Frame) (ctx : Context) (s : Stmt) (a a' b b' : Assembly) : Prop where
  run : (s.emit ctx.enclose).run b = .ok ((), b')
  symbols_eq : b'.symbols = a'.symbols.enclose outer
  code : ∃ code code' w w', Assembled ctx s a a' code w ∧ Assembled ctx.enclose s b b' code' w' ∧
    ∀ exit exit', (ctx.loop.isSome → exit' = exit + 1) → code' exit' = (code exit).map CodeLine.moved

/-- The assemblies behind the statement are related as those in front of it. -/
theorem Enclosed.encloses {s : Stmt} {a a' b b' : Assembly} (h : Enclosed outer ctx s a a' b b') (hab : a.Encloses outer b) :
    a'.Encloses outer b' := by
  obtain ⟨code, code', w, w', hasm, hasm', hcode⟩ := h.code
  refine ⟨h.symbols_eq, ?_⟩
  rw [hasm'.nextAddress_eq 1, hasm.nextAddress_eq 0, hcode 0 1 fun _ => rfl, List.length_map, hab.nextAddress_eq,
    Nat.add_right_comm]

/-- A statement without jumps has the same code in both. -/
theorem Enclosed.of_closed {s : Stmt} {a a' b b' : Assembly} {code code' : List CodeLine}
    (hrun : (s.emit ctx.enclose).run b = .ok ((), b')) (hsymbols : b'.symbols = a'.symbols.enclose outer)
    (hasm : Assembled ctx s a a' (fun _ => code) []) (hasm' : Assembled ctx.enclose s b b' (fun _ => code') [])
    (hcode : code' = code.map CodeLine.moved) : Enclosed outer ctx s a a' b b' :=
  ⟨hrun, hsymbols, _, _, _, _, hasm, hasm', fun _ _ _ => hcode⟩

section

variable {pos : Position} {condition : Expr} {body : Stmt} {ty : Ty} {a a₁ a₂ a₃ b b₁ b₂ b₃ : Assembly}

/-- Two statements, one after the other. -/
theorem Enclosed.seq {first rest : Stmt} (h₁ : Enclosed outer ctx first a a₁ b b₁) (h₂ : Enclosed outer ctx rest a₁ a₂ b₁ b₂) :
    Enclosed outer ctx (.seq first rest) a a₂ b b₂ := by
  obtain ⟨c₁, c₁', w₁, w₁', hasm₁, hasm₁', hcode₁⟩ := h₁.code
  obtain ⟨c₂, c₂', w₂, w₂', hasm₂, hasm₂', hcode₂⟩ := h₂.code
  refine ⟨run_emit_seq.2 ⟨b₁, h₁.run, h₂.run⟩, h₂.symbols_eq, _, _, _, _, hasm₁.seq hasm₂, hasm₁'.seq hasm₂',
    fun exit exit' hexit => ?_⟩
  rw [hcode₁ exit exit' hexit, hcode₂ exit exit' hexit, List.map_append]

/-- The scope of the block is left again: it is not the outermost one. -/
theorem Enclosed.block
    (h : Enclosed outer ctx body { a with symbols := a.symbols.enterBlock } a₁ { b with symbols := b.symbols.enterBlock } b₁) :
    Enclosed outer ctx (.block body) a { a₁ with symbols := a₁.symbols.leave } b { b₁ with symbols := b₁.symbols.leave } := by
  obtain ⟨c, c', w, w', hasm, hasm', hcode⟩ := h.code
  have hnested : a₁.symbols.nested ≠ [] := by
    intro hnil
    have htail := (hasm.compiled 0).tail_frames
    simp [SymbolTable.frames, SymbolTable.written, SymbolTable.enterBlock, hnil] at htail
  refine ⟨run_emit_block.2 ⟨b₁, h.run, rfl⟩, ?_, c, c', w, w', hasm.block, hasm'.block, hcode⟩
  rw [SymbolTable.enclose_leave outer hnested, ← h.symbols_eq]

/-- The jump over the body goes to the address behind it. -/
theorem Enclosed.ifThen (hc : Expr.Enclosed outer ctx condition ty a a₁ b b₁) (hty : ty ≠ .void) (hscoped : body.Scoped)
    (h : Enclosed outer ctx body (a₁.push .jz (some 0) pos) a₂ (b₁.push .jz (some 0) pos) b₂) :
    Enclosed outer ctx (.ifThen pos condition body) a (a₂.patch a₁.nextAddress) b (b₂.patch b₁.nextAddress) := by
  have hab₂ := h.encloses (hc.encloses.push ..)
  obtain ⟨c, c', w, w', hasm, hasm', hcode⟩ := h.code
  refine ⟨run_emit_ifThen.2 ⟨ty, b₁, b₂, hc.run, hty, h.run, rfl⟩, hab₂.symbols_eq, _, _, _, _,
    .ifThen hc.emitted hty hscoped hasm, .ifThen (Expr.emitted hc.run) hty hscoped hasm', fun exit exit' hexit => ?_⟩
  rw [hcode exit exit' hexit, hc.code_eq, ← b₂.nextAddress_eq, hab₂.nextAddress_eq, List.map_append, Expr.map_moved_code]
  rfl

/-- The jump of the condition goes to the alternative, and the jump behind the body over it. -/
theorem Enclosed.ifElse {elsePos : Position} {other : Stmt} (hc : Expr.Enclosed outer ctx condition ty a a₁ b b₁) (hty : ty ≠ .void)
    (hscoped₂ : body.Scoped) (hscoped₃ : other.Scoped)
    (h₂ : Enclosed outer ctx body (a₁.push .jz (some 0) pos) a₂ (b₁.push .jz (some 0) pos) b₂)
    (h₃ : Enclosed outer ctx other ((a₂.push .jmp (some 0) elsePos).patch a₁.nextAddress) a₃
      ((b₂.push .jmp (some 0) elsePos).patch b₁.nextAddress) b₃) :
    Enclosed outer ctx (.ifElse pos condition body elsePos other) a (a₃.patch a₂.nextAddress) b (b₃.patch b₂.nextAddress) := by
  have hab₂ := h₂.encloses (hc.encloses.push ..)
  have hab₃ := h₃.encloses ((hab₂.push ..).patch ..)
  obtain ⟨c₂, c₂', w₂, w₂', hasm₂, hasm₂', hcode₂⟩ := h₂.code
  obtain ⟨c₃, c₃', w₃, w₃', hasm₃, hasm₃', hcode₃⟩ := h₃.code
  refine ⟨run_emit_ifElse.2 ⟨ty, b₁, b₂, b₃, hc.run, hty, h₂.run, h₃.run, rfl⟩, hab₃.symbols_eq, _, _, _, _,
    .ifElse hc.emitted hty hscoped₂ hscoped₃ hasm₂ hasm₃, .ifElse (Expr.emitted hc.run) hty hscoped₂ hscoped₃ hasm₂' hasm₃',
    fun exit exit' hexit => ?_⟩
  rw [hcode₂ exit exit' hexit, hcode₃ exit exit' hexit, hc.code_eq, ← b₂.nextAddress_eq, hab₂.nextAddress_eq,
    ← b₃.nextAddress_eq, hab₃.nextAddress_eq, List.map_append, Expr.map_moved_code, List.map_cons, List.map_append]
  rfl

/-- The address that the body is entered with and the one that it is left to both stand one further. -/
theorem Enclosed.loop (hab : a.Encloses outer b) (hc : Expr.Enclosed outer ctx condition ty a a₁ b b₁) (hty : ty ≠ .void)
    (hscoped : body.Scoped)
    (h : Enclosed outer { ctx with loop := some a.nextAddress } body { a₁.push .jz (some 0) pos with breaks := [] } a₂
      { b₁.push .jz (some 0) pos with breaks := [] } b₂) :
    Enclosed outer ctx (.loop pos condition body) a
      (a₂.breaks.foldl Assembly.patch
        ((({ a₂ with breaks := a₁.breaks } : Assembly).push .jmp (some a.nextAddress) pos).patch a₁.nextAddress)) b
      (b₂.breaks.foldl Assembly.patch
        ((({ b₂ with breaks := b₁.breaks } : Assembly).push .jmp (some b.nextAddress) pos).patch b₁.nextAddress)) := by
  have hab₂ := h.encloses ⟨hc.encloses.symbols_eq, (hc.encloses.push .jz (some 0) (some 0) pos).nextAddress_eq⟩
  obtain ⟨c, c', w, w', hasm, hasm', hcode⟩ := h.code
  have hctx : ({ ctx with loop := some a.nextAddress } : Context).enclose = { ctx.enclose with loop := some b.nextAddress } := by
    rw [hab.nextAddress_eq]
    rfl
  have hrun := h.run
  rw [hctx] at hrun hasm'
  refine .of_closed (run_emit_loop.2 ⟨ty, b₁, b₂, hc.run, hty, hrun, rfl⟩) ?_ (.loop hc.emitted hty hscoped hasm)
    (.loop (Expr.emitted hc.run) hty hscoped hasm') ?_
  · rw [Assembly.symbols_foldl_patch, Assembly.symbols_foldl_patch]
    exact hab₂.symbols_eq
  · rw [hc.code_eq, ← b₂.nextAddress_eq, hab₂.nextAddress_eq, hab.nextAddress_eq, hcode _ _ fun _ => rfl, List.map_append,
      Expr.map_moved_code, List.map_cons, List.map_append]
    rfl

end

section

variable {pos : Position} {e : Expr} {a a' b : Assembly} {u : Unit}

/-- The same variable is declared in the scope of the function, and written if there is a value. -/
theorem exists_enclosed_decl {constant : Bool} {x target : Ident} {init : Option Expr} (hctx : ctx.function = none)
    (hab : a.Encloses outer b) (h : ((decl pos constant x target init).emit ctx).run a = .ok (u, a')) :
    ∃ b', Enclosed outer ctx (decl pos constant x target init) a a' b b' := by
  cases init with
  | none =>
    obtain ⟨ty, v, t, hname, hty, ht, rfl⟩ := run_emit_decl.1 h
    have ht' := SymbolTable.declare_enclose outer ht
    rw [← hab.symbols_eq] at ht'
    exact ⟨_, .of_closed (run_emit_decl.2 ⟨ty, _, _, hname, hty, ht', rfl⟩) rfl
      (.of_closed (fun _ => .decl hty ht) (List.append_nil _).symm rfl)
      (.of_closed (fun _ => .decl hty ht') (List.append_nil _).symm rfl) rfl⟩
  | some e =>
    obtain ⟨ty, v, t, a₁, t₁, hname, hty, ht, he, ht₁, rfl⟩ := run_emit_init.1 h
    have ht' := SymbolTable.declare_enclose outer ht
    rw [← hab.symbols_eq] at ht'
    obtain ⟨b₁, he', hab₁, hcode⟩ := Expr.exists_enclosed (b := { b with symbols := t.enclose outer }) hctx rfl he
    have ht₁' := SymbolTable.markWritten_enclose outer ht₁
    rw [← hab₁] at ht₁'
    refine ⟨_, .of_closed (run_emit_init.2 ⟨ty, _, _, b₁, _, hname, hty, ht', he', ht₁', rfl⟩) rfl
      (.init hty ht (Expr.emitted he) ht₁) (.init hty ht' (Expr.emitted he') ht₁') ?_⟩
    rw [List.map_append, Expr.map_moved_code, ← hcode, List.map_singleton, Context.moved_store, Context.storeOp_enclose hctx]

/-- The value of an expression is dropped in both places or in neither. -/
theorem exists_enclosed_expr (hctx : ctx.function = none) (hab : a.Encloses outer b)
    (h : ((expr e).emit ctx).run a = .ok (u, a')) : ∃ b', Enclosed outer ctx (expr e) a a' b b' := by
  obtain ⟨ty, a₁, he, rfl⟩ := run_emit_expr.1 h
  obtain ⟨b₁, he'⟩ := Expr.exists_encloses hctx hab he
  refine ⟨_, .of_closed (run_emit_expr.2 ⟨ty, b₁, he'.run, rfl⟩) ?_ (.expr he'.emitted) (.expr (Expr.emitted he'.run)) ?_⟩
  · split <;> exact he'.encloses.symbols_eq
  · rw [List.map_append, Expr.map_moved_code, ← he'.code_eq]
    split <;> rfl

/-- A return of what has no value returns nothing from the function. -/
theorem exists_enclosed_retValue (hctx : ctx.function = none) (hab : a.Encloses outer b)
    (hreturns : Emission.ReturnsNothing ⟨ctx, retValue pos e, a, a'⟩) (h : ((retValue pos e).emit ctx).run a = .ok (u, a')) :
    ∃ b', Enclosed outer ctx (retValue pos e) a a' b b' := by
  obtain ⟨found, a₁, he, hty, rfl⟩ := run_emit_retValue.1 h
  obtain rfl := hreturns _ _ _ .refl (.retValue he)
  obtain ⟨b₁, he'⟩ := Expr.exists_encloses hctx hab he
  have hty' : ∀ ty, ctx.enclose.function = some ty → .void = ty := fun ty h => Option.some.inj h
  refine ⟨_, .of_closed (run_emit_retValue.2 ⟨_, b₁, he'.run, hty', rfl⟩) he'.encloses.symbols_eq (.retValue he'.emitted hty)
    (.retValue (Expr.emitted he'.run) hty') ?_⟩
  rw [List.map_append, Expr.map_moved_code, ← he'.code_eq]
  rfl

end

/-- What is accepted outside functions, with no value returned, is accepted in a function that returns none. -/
theorem exists_enclosed {s : Stmt} (hs : s.Structured) (hctx : ctx.function = none) {a a' b : Assembly} {u : Unit}
    (hab : a.Encloses outer b) (hreturns : Emission.ReturnsNothing ⟨ctx, s, a, a'⟩) (h : (s.emit ctx).run a = .ok (u, a')) :
    ∃ b', Enclosed outer ctx s a a' b b' := by
  induction s generalizing ctx a a' b u with
  | nil =>
    obtain ⟨-, rfl⟩ := run_pure_eq_ok.1 (by rwa [emit] at h)
    exact ⟨b, .of_closed (by rw [emit]; exact run_pure_eq_ok.2 ⟨rfl, rfl⟩) hab.symbols_eq
      (.of_closed (fun _ => .nil) (List.append_nil _).symm rfl) (.of_closed (fun _ => .nil) (List.append_nil _).symm rfl) rfl⟩
  | empty =>
    obtain ⟨-, rfl⟩ := run_pure_eq_ok.1 (by rwa [emit] at h)
    exact ⟨b, .of_closed (by rw [emit]; exact run_pure_eq_ok.2 ⟨rfl, rfl⟩) hab.symbols_eq
      (.of_closed (fun _ => .empty) (List.append_nil _).symm rfl) (.of_closed (fun _ => .empty) (List.append_nil _).symm rfl) rfl⟩
  | seq first rest ih₁ ih₂ =>
    obtain ⟨a₁, h₁, h₂⟩ := run_emit_seq.1 h
    obtain ⟨b₁, he₁⟩ := ih₁ hs.1 hctx hab (hreturns.of_has (.first h₁ h₂)) h₁
    obtain ⟨b₂, he₂⟩ := ih₂ hs.2 hctx (he₁.encloses hab) (hreturns.of_has (.rest h₁ h₂)) h₂
    exact ⟨b₂, he₁.seq he₂⟩
  | decl pos constant x target init => exact exists_enclosed_decl hctx hab h
  | expr e => exact exists_enclosed_expr hctx hab h
  | block body ih =>
    obtain ⟨a₁, h₁, rfl⟩ := run_emit_block.1 h
    have hab₁ : Assembly.Encloses outer { a with symbols := a.symbols.enterBlock } { b with symbols := b.symbols.enterBlock } :=
      ⟨by rw [SymbolTable.enclose_enterBlock, hab.symbols_eq], hab.nextAddress_eq⟩
    obtain ⟨b₁, he⟩ := ih hs hctx hab₁ (hreturns.of_has (.block h₁)) h₁
    exact ⟨_, he.block⟩
  | ifThen pos condition body ih =>
    obtain ⟨ty, a₁, a₂, hc, hty, h₂, rfl⟩ := run_emit_ifThen.1 h
    obtain ⟨b₁, hc'⟩ := Expr.exists_encloses hctx hab hc
    obtain ⟨b₂, he⟩ := ih hs.2 hctx (hc'.encloses.push .jz (some 0) (some 0) pos) (hreturns.of_has (.ifThen hc hty h₂)) h₂
    exact ⟨_, .ifThen hc' hty hs.1 he⟩
  | ifElse pos condition body elsePos other ih₂ ih₃ =>
    obtain ⟨ty, a₁, a₂, a₃, hc, hty, h₂, h₃, rfl⟩ := run_emit_ifElse.1 h
    obtain ⟨hscoped₂, hscoped₃, hs₂, hs₃⟩ := hs
    obtain ⟨b₁, hc'⟩ := Expr.exists_encloses hctx hab hc
    obtain ⟨b₂, he₂⟩ := ih₂ hs₂ hctx (hc'.encloses.push .jz (some 0) (some 0) pos) (hreturns.of_has (.ifElse hc hty h₂ h₃)) h₂
    have hab₂ := he₂.encloses (hc'.encloses.push ..)
    obtain ⟨b₃, he₃⟩ := ih₃ hs₃ hctx ((hab₂.push .jmp (some 0) (some 0) elsePos).patch a₁.nextAddress b₁.nextAddress)
      (hreturns.of_has (.alternative hc hty h₂ h₃)) h₃
    exact ⟨_, .ifElse hc' hty hscoped₂ hscoped₃ he₂ he₃⟩
  | loop pos condition body ih =>
    obtain ⟨ty, a₁, a₂, hc, hty, h₂, rfl⟩ := run_emit_loop.1 h
    obtain ⟨b₁, hc'⟩ := Expr.exists_encloses hctx hab hc
    have hjz :
        Assembly.Encloses outer { a₁.push .jz (some 0) pos with breaks := [] } { b₁.push .jz (some 0) pos with breaks := [] } :=
      ⟨hc'.encloses.symbols_eq, (hc'.encloses.push .jz (some 0) (some 0) pos).nextAddress_eq⟩
    have hbody : ({ ctx with loop := some a.nextAddress } : Context).function = none := hctx
    obtain ⟨b₂, he⟩ := ih hs.2 hbody hjz (hreturns.of_has (.loop hc hty h₂)) h₂
    exact ⟨_, .loop hab hc' hty hs.1 he⟩
  | leave pos =>
    obtain ⟨hloop, rfl⟩ := run_emit_leave.1 h
    have hloop' : ctx.enclose.loop.isSome := by
      rw [Context.enclose, Option.isSome_map]
      exact hloop
    refine ⟨_, run_emit_leave.2 ⟨hloop', rfl⟩, hab.symbols_eq, _, _, _, _, .leave hloop, .leave hloop', fun exit exit' hexit => ?_⟩
    rw [hexit hloop]
    rfl
  | again pos =>
    obtain ⟨head, hhead, rfl⟩ := run_emit_again.1 h
    have hhead' : ctx.enclose.loop = some (head + 1) := by
      rw [Context.enclose, hhead]
      rfl
    exact ⟨_, .of_closed (run_emit_again.2 ⟨_, hhead', rfl⟩) hab.symbols_eq
      (.of_closed (fun _ => .again hhead) (Assembly.code_push ..) rfl)
      (.of_closed (fun _ => .again hhead') (Assembly.code_push ..) rfl) rfl⟩
  | ret pos stop =>
    obtain ⟨hty, rfl⟩ := run_emit_ret.1 h
    have hty' : ∀ ty, ctx.enclose.function = some ty → ty = .void := fun ty h => (Option.some.inj h).symm
    exact ⟨_, .of_closed (run_emit_ret.2 ⟨hty', rfl⟩) hab.symbols_eq (.of_closed (fun _ => .ret hty) (Assembly.code_push ..) rfl)
      (.of_closed (fun _ => .ret hty') (Assembly.code_push ..) rfl) rfl⟩
  | retValue pos e => exact exists_enclosed_retValue hctx hab hreturns h
  | fault error => exact (run_throw_eq_ok.1 (by rwa [emit] at h)).elim

end Stmt

end

end C0Stack
