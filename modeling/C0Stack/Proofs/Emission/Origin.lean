import C0Stack.Proofs.Emission.Stmt

/-!
# Where instructions come from

An instruction in the code of a statement is in the code of a statement directly inside it, or in that of an expression, or it is one
that the statement itself adds: the write of the value that a variable is declared with, a jump, a `POP`, the `RET` of a return
(`Emission.origin_of_stands`). What is asked of the instructions of a statement is asked along this, one level after the other. In
particular each `RET` in the code of a statement is that of a return inside it (`Emission.Stands.hasReturn`).
-/

namespace C0Stack

open Assembling

/-- The operation reads or writes a slot. -/
def Operation.isAccess : Operation → Bool
  | lod | sto | lodg | stog => true
  | _ => false

/-! ## Lines at an address -/

section

variable {lines code code' : List CodeLine} {base n : Nat} {line line' : CodeLine}

/-- The first line of a piece is where the piece stands. -/
theorem StandsAt.getElem?_head (h : StandsAt lines base (line :: code)) : lines[base]? = some line := by
  simpa using h.getElem? (show 0 < (line :: code).length by simp)

/-- A line that stands up to the one behind a piece is in the piece, or it is that one. -/
theorem StandsAt.lt_or_eq (h : StandsAt lines base (code ++ line' :: code')) (hle : n ≤ base + code.length)
    (hline : lines[n]? = some line) : n < base + code.length ∨ n = base + code.length ∧ line = line' := by
  rcases Nat.lt_or_eq_of_le hle with hlt | rfl
  · exact .inl hlt
  · rw [h.getElem?_length] at hline
    exact .inr ⟨rfl, (Option.some.inj hline).symm⟩

variable {ctx : Context} {e : Expr} {ty : Ty} {a a₁ : Assembly} {op : Operation} {operand : Option Nat} {pos : Position}

/-- An address below the one behind an instruction is at most that of the instruction. -/
theorem Assembly.le_of_lt_push (h : n < (a.push op operand pos).nextAddress) : n ≤ a.nextAddress := by
  rw [nextAddress_push] at h
  exact Nat.le_of_lt_succ h

/-- The one line that is emitted. -/
theorem StandsAt.eq_of_push (hs : StandsAt lines a.nextAddress [line']) (hn : a.nextAddress ≤ n)
    (hlt : n < (a.push op operand pos).nextAddress) (hline : lines[n]? = some line) : n = a.nextAddress ∧ line = line' := by
  rcases @lt_or_eq lines [] [] _ _ _ _ hs (Assembly.le_of_lt_push hlt) hline with hlt | heq
  · exact absurd hlt (Nat.not_lt.2 hn)
  · exact heq

/-- What is emitted behind an expression stands behind its code. -/
theorem Expr.Emitted.stands_behind (h : Emitted ctx e ty a a₁) (hs : StandsAt lines a.nextAddress (e.code ctx a.symbols ++ code)) :
    StandsAt lines a₁.nextAddress code := by
  rw [h.nextAddress_eq]
  exact hs.right

/-- A line that stands up to the one behind an expression is in its code, or it is that one. -/
theorem Expr.Emitted.lt_or_eq (h : Emitted ctx e ty a a₁)
    (hs : StandsAt lines a.nextAddress (e.code ctx a.symbols ++ line' :: code)) (hle : n ≤ a₁.nextAddress)
    (hline : lines[n]? = some line) : n < a₁.nextAddress ∨ n = a₁.nextAddress ∧ line = line' := by
  rw [h.nextAddress_eq] at hle ⊢
  exact hs.lt_or_eq hle hline

/-- The same behind the arguments of a call. -/
theorem Expr.EmittedAll.lt_or_eq {es : List Expr} {tys : List Ty} (h : EmittedAll ctx es tys a a₁)
    (hs : StandsAt lines a.nextAddress (codeOfAll ctx a.symbols es ++ line' :: code)) (hle : n ≤ a₁.nextAddress)
    (hline : lines[n]? = some line) : n < a₁.nextAddress ∨ n = a₁.nextAddress ∧ line = line' := by
  rw [Assembly.nextAddress_eq, h.code_eq, List.length_append] at hle ⊢
  exact hs.lt_or_eq hle hline

end

/-! ## Statements -/

namespace Emission

/-- While the statement is emitted, so is the expression, starting from the assembly, as a direct part of the statement. -/
inductive Evaluates : Emission → Expr → Assembly → Prop
  | init {ctx : Context} {pos : Position} {constant : Bool} {x target : Ident} {e : Expr} {ty : Ty} {v : Variable} {t : SymbolTable}
      {a a' : Assembly} :
      Ty.named? target.name = some ty → a.symbols.declare x.name constant ty x.pos = .ok (v, t) →
        Evaluates ⟨ctx, .decl pos constant x target (some e), a, a'⟩ e { a with symbols := t }
  | expr {ctx : Context} {e : Expr} {a a' : Assembly} : Evaluates ⟨ctx, .expr e, a, a'⟩ e a
  | ifThen {ctx : Context} {pos : Position} {condition : Expr} {body : Stmt} {a a' : Assembly} :
      Evaluates ⟨ctx, .ifThen pos condition body, a, a'⟩ condition a
  | ifElse {ctx : Context} {pos elsePos : Position} {condition : Expr} {body other : Stmt} {a a' : Assembly} :
      Evaluates ⟨ctx, .ifElse pos condition body elsePos other, a, a'⟩ condition a
  | loop {ctx : Context} {pos : Position} {condition : Expr} {body : Stmt} {a a' : Assembly} :
      Evaluates ⟨ctx, .loop pos condition body, a, a'⟩ condition a
  | retValue {ctx : Context} {pos : Position} {e : Expr} {a a' : Assembly} : Evaluates ⟨ctx, .retValue pos e, a, a'⟩ e a

/-- The statement declares the name with a value. The variable is written by the instruction that is emitted next to the
assembly. -/
inductive Initializes : Emission → Ident → Variable → Assembly → Prop
  | init {ctx : Context} {pos : Position} {constant : Bool} {x target : Ident} {e : Expr} {ty ty' : Ty} {v : Variable}
      {t : SymbolTable} {a a₁ a' : Assembly} :
      Ty.named? target.name = some ty → a.symbols.declare x.name constant ty x.pos = .ok (v, t) →
        (e.emit ctx).run { a with symbols := t } = .ok (ty', a₁) →
        Initializes ⟨ctx, .decl pos constant x target (some e), a, a'⟩ x v a₁

/-- Where the instruction at an address of a statement comes from. -/
inductive Origin (lines : List CodeLine) (E : Emission) (n : Nat) (i : Instruction) : Prop
  | part (E' : Emission) : E.Has E' → E'.before.nextAddress ≤ n → n < E'.after.nextAddress → Origin lines E n i
  | value (e : Expr) (ty : Ty) (a a' : Assembly) : E.Evaluates e a → (e.emit E.ctx).run a = .ok (ty, a') →
      StandsAt lines a.nextAddress (e.code E.ctx a.symbols) → a.nextAddress ≤ n → n < a'.nextAddress → Origin lines E n i
  | init (x : Ident) (v : Variable) (b : Assembly) : E.Initializes x v b → b.nextAddress = n →
      i = ⟨E.ctx.storeOp v, some v.slot⟩ → Origin lines E n i
  | control : i.op.isAccess = false → (i.op = .ret → ∃ ty, E.Returns ty n) → Origin lines E n i

section

variable {calls : Nat → Option Signature} {lines : List CodeLine} {E E' : Emission} {n : Nat} {line : CodeLine}

/-- In front of the parts of a conditional or a loop come the condition and a jump. -/
theorem origin_of_condition {condition : Expr} {ty : Ty} {a₁ : Assembly} {skip : Nat} {pos : Position} {code : List CodeLine}
    (heval : E.Evaluates condition E.before) (hc : (condition.emit E.ctx).run E.before = .ok (ty, a₁))
    (hs : StandsAt lines E.before.nextAddress (condition.code E.ctx E.before.symbols ++ ⟨⟨.jz, some skip⟩, pos⟩ :: code))
    (hn : E.before.nextAddress ≤ n) (hle : n ≤ a₁.nextAddress) (hline : lines[n]? = some line) :
    Origin lines E n line.instruction := by
  rcases (Expr.emitted hc).lt_or_eq hs hle hline with hlt | ⟨-, rfl⟩
  · exact .value condition ty _ a₁ heval hc hs.left hn hlt
  · exact .control rfl (by rintro ⟨⟩)

variable {ctx : Context} {pos : Position} {e condition : Expr} {body : Stmt} {a a' : Assembly}

theorem Stands.run_eq {s : Stmt} (h : Stands calls lines ⟨ctx, s, a, a'⟩) : (s.emit ctx).run a = .ok ((), a') := h.run

/-- Its code stands in the program, with the jumps out of the loop around it in place. -/
theorem Stands.exists_standsAt {s : Stmt} (h : Stands calls lines ⟨ctx, s, a, a'⟩) :
    ∃ exit, ∀ code waiting, Stmt.Assembled ctx s a a' code waiting → StandsAt lines a.nextAddress (code exit) :=
  h.placed.imp fun _ h => h.2

/-- A declaration adds the write of the value that the variable is declared with. -/
theorem origin_of_decl {constant : Bool} {x target : Ident} {init : Option Expr}
    (h : Stands calls lines ⟨ctx, .decl pos constant x target init, a, a'⟩) (hn : a.nextAddress ≤ n) (hlt : n < a'.nextAddress)
    (hline : lines[n]? = some line) : Origin lines ⟨ctx, .decl pos constant x target init, a, a'⟩ n line.instruction := by
  cases init with
  | none =>
    obtain ⟨ty, v, t, -, -, -, rfl⟩ := Stmt.run_emit_decl.1 h.run_eq
    exact absurd hlt (Nat.not_lt.2 hn)
  | some e =>
    obtain ⟨ty, v, t, a₁, t₁, hname, hty, hd, he, ht₁, rfl⟩ := Stmt.run_emit_init.1 h.run_eq
    obtain ⟨exit, hplaced⟩ := h.exists_standsAt
    have hs := hplaced _ _ (.init hty hd (Expr.emitted he) ht₁)
    rcases (Expr.emitted he).lt_or_eq hs (Assembly.le_of_lt_push hlt) hline with hlt | ⟨rfl, rfl⟩
    · exact .value _ _ _ a₁ (.init hname hd) he hs.left hn hlt
    · exact .init _ _ a₁ (.init hname hd he) rfl rfl

/-- An expression that is a statement adds the instruction that drops its value, if it has one. -/
theorem origin_of_expr (h : Stands calls lines ⟨ctx, .expr e, a, a'⟩) (hn : a.nextAddress ≤ n) (hlt : n < a'.nextAddress)
    (hline : lines[n]? = some line) : Origin lines ⟨ctx, .expr e, a, a'⟩ n line.instruction := by
  obtain ⟨ty, a₁, he, rfl⟩ := Stmt.run_emit_expr.1 h.run_eq
  obtain ⟨exit, hplaced⟩ := h.exists_standsAt
  have hs := hplaced _ _ (.expr (Expr.emitted he))
  by_cases hty : ty = .void
  · rw [if_pos hty] at hlt
    exact .value e ty a a₁ .expr he hs.left hn hlt
  · rw [if_neg hty] at hlt hs
    rcases (Expr.emitted he).lt_or_eq hs (Assembly.le_of_lt_push hlt) hline with hlt | ⟨-, rfl⟩
    · exact .value e ty a a₁ .expr he hs.left hn hlt
    · exact .control rfl (by rintro ⟨⟩)

/-- A conditional with an alternative adds the jump of the condition and the one between the two. -/
theorem origin_of_ifElse {elsePos : Position} {other : Stmt}
    (h : Stands calls lines ⟨ctx, .ifElse pos condition body elsePos other, a, a'⟩) (hn : a.nextAddress ≤ n)
    (hlt : n < a'.nextAddress) (hline : lines[n]? = some line) :
    Origin lines ⟨ctx, .ifElse pos condition body elsePos other, a, a'⟩ n line.instruction := by
  obtain ⟨ty, a₁, a₂, a₃, hc, hty, h₁, h₂, rfl⟩ := Stmt.run_emit_ifElse.1 h.run_eq
  obtain ⟨hscoped₁, hscoped₂, hs₁, hs₂⟩ := h.structured
  obtain ⟨c₁, w₁, hasm₁⟩ := Stmt.emitted hs₁ h₁
  obtain ⟨c₂, w₂, hasm₂⟩ := Stmt.emitted hs₂ h₂
  obtain ⟨exit, hplaced⟩ := h.exists_standsAt
  have hs := hplaced _ _ (.ifElse (Expr.emitted hc) hty hscoped₁ hscoped₂ hasm₁ hasm₂)
  rcases Nat.lt_or_ge a₁.nextAddress n with hgt | hle
  · rcases Nat.lt_trichotomy n a₂.nextAddress with hmid | rfl | hmid
    · exact .part _ (.ifElse hc hty h₁ h₂) (Nat.le_trans (Nat.le_of_eq (a₁.nextAddress_push ..)) hgt) hmid
    · have hjump := hs.of_cons.getElem?_length
      rw [← (Expr.emitted hc).nextAddress_eq, ← a₁.nextAddress_push .jz (some 0) pos, ← hasm₁.nextAddress_eq, hline] at hjump
      cases hjump
      exact .control rfl (by rintro ⟨⟩)
    · refine .part _ (.alternative hc hty h₁ h₂) ?_ (Nat.lt_of_lt_of_eq hlt (a₃.nextAddress_patch _))
      rw [Assembly.nextAddress_patch, Assembly.nextAddress_push]
      exact hmid
  · exact origin_of_condition .ifElse hc hs hn hle hline

/-- A loop adds the jump of the condition and the one back to it. -/
theorem origin_of_loop (h : Stands calls lines ⟨ctx, .loop pos condition body, a, a'⟩) (hn : a.nextAddress ≤ n)
    (hlt : n < a'.nextAddress) (hline : lines[n]? = some line) :
    Origin lines ⟨ctx, .loop pos condition body, a, a'⟩ n line.instruction := by
  obtain ⟨ty, a₁, a₂, hc, hty, h₁, rfl⟩ := Stmt.run_emit_loop.1 h.run_eq
  obtain ⟨hscoped, hstructured⟩ := h.structured
  obtain ⟨code, w, hasm⟩ := Stmt.emitted hstructured h₁
  obtain ⟨exit, hplaced⟩ := h.exists_standsAt
  have hs := hplaced _ _ (hasm.loop (Expr.emitted hc) hty hscoped)
  have hstart : ({ a₁.push .jz (some 0) pos with breaks := [] } : Assembly).nextAddress = a₁.nextAddress + 1 :=
    a₁.nextAddress_push ..
  rw [Assembly.nextAddress_foldl_patch, Assembly.nextAddress_patch, Assembly.nextAddress_push] at hlt
  rcases Nat.lt_or_ge a₁.nextAddress n with hgt | hle
  · rcases Nat.lt_or_eq_of_le (Nat.le_of_lt_succ hlt) with hlt | hlast
    · exact .part _ (.loop hc hty h₁) (Nat.le_trans (Nat.le_of_eq hstart) hgt) hlt
    · have hjump := hs.of_cons.getElem?_length
      rw [← (Expr.emitted hc).nextAddress_eq, ← hstart, ← hasm.nextAddress_eq] at hjump
      have hline := (hlast ▸ hjump).symm.trans hline
      cases hline
      exact .control rfl (by rintro ⟨⟩)
  · exact origin_of_condition .loop hc hs hn hle hline

/-- The instruction is that of a part of the statement or of an expression in it, or one that the statement itself adds. -/
theorem origin_of_stands {s : Stmt} (h : Stands calls lines ⟨ctx, s, a, a'⟩) (hn : a.nextAddress ≤ n) (hlt : n < a'.nextAddress)
    (hline : lines[n]? = some line) : Origin lines ⟨ctx, s, a, a'⟩ n line.instruction := by
  have run := h.run_eq
  cases s with
  | nil | empty =>
    obtain ⟨-, rfl⟩ := run_pure_eq_ok.1 (by rwa [Stmt.emit] at run)
    exact absurd hlt (Nat.not_lt.2 hn)
  | seq first rest =>
    obtain ⟨a₁, h₁, h₂⟩ := Stmt.run_emit_seq.1 run
    rcases Nat.lt_or_ge n a₁.nextAddress with hmid | hmid
    · exact .part _ (.first h₁ h₂) hn hmid
    · exact .part _ (.rest h₁ h₂) hmid hlt
  | decl pos constant x target init => exact origin_of_decl h hn hlt hline
  | expr e => exact origin_of_expr h hn hlt hline
  | block body =>
    obtain ⟨a₁, h₁, rfl⟩ := Stmt.run_emit_block.1 run
    exact .part _ (.block h₁) hn hlt
  | ifThen pos condition body =>
    obtain ⟨ty, a₁, a₂, hc, hty, h₁, rfl⟩ := Stmt.run_emit_ifThen.1 run
    obtain ⟨hscoped, hstructured⟩ := h.structured
    obtain ⟨code, w, hasm⟩ := Stmt.emitted hstructured h₁
    obtain ⟨exit, hplaced⟩ := h.exists_standsAt
    rcases Nat.lt_or_ge a₁.nextAddress n with hgt | hle
    · exact .part _ (.ifThen hc hty h₁) (Nat.le_trans (Nat.le_of_eq (a₁.nextAddress_push ..)) hgt)
        (Nat.lt_of_lt_of_eq hlt (a₂.nextAddress_patch _))
    · exact origin_of_condition .ifThen hc (hplaced _ _ (hasm.ifThen (Expr.emitted hc) hty hscoped)) hn hle hline
  | ifElse pos condition body elsePos other => exact origin_of_ifElse h hn hlt hline
  | loop pos condition body => exact origin_of_loop h hn hlt hline
  | leave pos =>
    obtain ⟨hloop, rfl⟩ := Stmt.run_emit_leave.1 run
    obtain ⟨exit, hplaced⟩ := h.exists_standsAt
    obtain ⟨-, rfl⟩ := (hplaced _ _ (.leave hloop)).eq_of_push hn hlt hline
    exact .control rfl (by rintro ⟨⟩)
  | again pos =>
    obtain ⟨head, hhead, rfl⟩ := Stmt.run_emit_again.1 run
    obtain ⟨exit, hplaced⟩ := h.exists_standsAt
    have hs := hplaced _ _ (.of_closed (fun _ => .again hhead) (Assembly.code_push ..) rfl)
    obtain ⟨-, rfl⟩ := hs.eq_of_push hn hlt hline
    exact .control rfl (by rintro ⟨⟩)
  | ret pos stop =>
    obtain ⟨hty, rfl⟩ := Stmt.run_emit_ret.1 run
    obtain ⟨exit, hplaced⟩ := h.exists_standsAt
    have hs := hplaced _ _ (.of_closed (fun _ => .ret hty) (Assembly.code_push ..) rfl)
    obtain ⟨rfl, rfl⟩ := hs.eq_of_push hn hlt hline
    exact .control rfl fun _ => ⟨_, .ret⟩
  | retValue pos e =>
    obtain ⟨found, a₁, he, hty, rfl⟩ := Stmt.run_emit_retValue.1 run
    obtain ⟨exit, hplaced⟩ := h.exists_standsAt
    have hs := hplaced _ _ (.retValue (Expr.emitted he) hty)
    rcases (Expr.emitted he).lt_or_eq hs (Assembly.le_of_lt_push hlt) hline with hlt | ⟨rfl, rfl⟩
    · exact .value e found a a₁ .retValue he hs.left hn hlt
    · exact .control rfl fun _ => ⟨_, .retValue he⟩
  | fault error => exact (run_throw_eq_ok.1 (by rwa [Stmt.emit_fault] at run)).elim

/-- The parts of a statement are smaller than the whole. -/
theorem Has.sizeOf_lt (h : E.Has E') : sizeOf E'.stmt < sizeOf E.stmt := by
  cases h <;> simp <;> omega

/-! ## Returns -/

/-- The address is that of the `RET` of a return inside the statement. -/
def HasReturn (E : Emission) (n : Nat) : Prop := ∃ E' ty, E.Covers E' ∧ E'.Returns ty n

/-- A return inside a part is a return inside the whole. -/
theorem HasReturn.of_has (h : E'.HasReturn n) (hE : E.Has E') : E.HasReturn n := by
  obtain ⟨E'', ty, hcovers, hreturns⟩ := h
  exact ⟨E'', ty, .head hE hcovers, hreturns⟩

/-- Every `RET` in the code of a statement is that of a return inside it. -/
theorem Stands.hasReturn {E : Emission} (h : E.Stands calls lines) (hn : E.before.nextAddress ≤ n) (hlt : n < E.after.nextAddress)
    (hline : lines[n]? = some line) (hret : line.instruction.op = .ret) : E.HasReturn n := by
  have horigin : Origin lines E n line.instruction := origin_of_stands h hn hlt hline
  cases horigin with
  | part E' hhas hn' hlt' =>
    have hsmaller := hhas.sizeOf_lt
    exact (Stands.hasReturn (h.of_has hhas) hn' hlt' hline hret).of_has hhas
  | value e ty a a' heval he hs hn' hlt' =>
    rw [(Expr.emitted he).nextAddress_eq] at hlt'
    exact absurd hret (Expr.line_of_calls (fun _ _ _ => trivial) (hs.mem_of_getElem? hline hn' hlt')).ne_ret
  | init x v b _ _ hi =>
    rw [hi] at hret
    exact absurd hret (E.ctx.line_store (fun _ => True) v).ne_ret
  | control _ hreturns =>
    obtain ⟨ty, hreturn⟩ := hreturns hret
    exact ⟨E, ty, .refl, hreturn⟩
termination_by sizeOf E.stmt

end

end Emission

end C0Stack
