import C0Stack.Proofs.Heights
import Mathlib.Logic.Relation

/-!
# The statements that are emitted

While a text is compiled, each statement in it is emitted once: what is around it is known then, and so are the next address in front
of it and the one behind it. `Emission` holds this, `Emission.Has` leads from a statement to those directly inside it, and
`Emission.Covers` to all of them. Where the code of a statement stands in a program with nothing on the stack in front of it, the
same holds of every statement inside it (`Emission.Stands.of_has`).
-/

namespace C0Stack

open Assembling

/-! ## Addresses -/

namespace Assembly

@[simp] theorem nextAddress_push (a : Assembly) (op : Operation) (operand : Option Nat) (pos : Position) :
    (a.push op operand pos).nextAddress = a.nextAddress + 1 := by
  rw [nextAddress_eq, nextAddress_eq, code_push, List.length_append, List.length_singleton]

@[simp] theorem nextAddress_patch (a : Assembly) (address : Nat) : (a.patch address).nextAddress = a.nextAddress :=
  length_code_patch a address

/-- Patching does not move the next address. -/
theorem nextAddress_foldl_patch (addresses : List Nat) (a : Assembly) :
    (addresses.foldl patch a).nextAddress = a.nextAddress := by
  induction addresses generalizing a with
  | nil => rfl
  | cons n ns ih => rw [List.foldl_cons, ih, nextAddress_patch]

end Assembly

/-- Behind an expression the next address is that behind its code. -/
theorem Expr.Emitted.nextAddress_eq {ctx : Context} {e : Expr} {ty : Ty} {a a₁ : Assembly} (h : Emitted ctx e ty a a₁) :
    a₁.nextAddress = a.nextAddress + (e.code ctx a.symbols).length := by
  rw [Assembly.nextAddress_eq, Assembly.nextAddress_eq, h.code_eq, List.length_append]

theorem Stmt.Assembled.nextAddress_eq {ctx : Context} {s : Stmt} {a a₁ : Assembly} {code : Nat → List CodeLine} {w : List Nat}
    (h : Assembled ctx s a a₁ code w) (exit : Nat) : a₁.nextAddress = a.nextAddress + (code exit).length := by
  rw [Assembly.nextAddress_eq, Assembly.nextAddress_eq, h.code_eq, List.length_append, h.length_eq exit]

/-! ## Emissions -/

/-- A statement that is emitted, with what is around it, and with the assembly in front of it and behind it. -/
structure Emission where
  ctx : Context
  stmt : Stmt
  before : Assembly
  after : Assembly

namespace Emission

/-- Emitting the statement leads from the one assembly to the other. -/
def Runs (E : Emission) : Prop := (E.stmt.emit E.ctx).run E.before = .ok ((), E.after)

/-- The second statement is emitted as a direct part of the first. -/
inductive Has : Emission → Emission → Prop
  | first {ctx : Context} {first rest : Stmt} {a a₁ a₂ : Assembly} :
      Runs ⟨ctx, first, a, a₁⟩ → Runs ⟨ctx, rest, a₁, a₂⟩ → Has ⟨ctx, .seq first rest, a, a₂⟩ ⟨ctx, first, a, a₁⟩
  | rest {ctx : Context} {first rest : Stmt} {a a₁ a₂ : Assembly} :
      Runs ⟨ctx, first, a, a₁⟩ → Runs ⟨ctx, rest, a₁, a₂⟩ → Has ⟨ctx, .seq first rest, a, a₂⟩ ⟨ctx, rest, a₁, a₂⟩
  | block {ctx : Context} {body : Stmt} {a a₁ : Assembly} :
      Runs ⟨ctx, body, { a with symbols := a.symbols.enterBlock }, a₁⟩ →
        Has ⟨ctx, .block body, a, { a₁ with symbols := a₁.symbols.leave }⟩
          ⟨ctx, body, { a with symbols := a.symbols.enterBlock }, a₁⟩
  | ifThen {ctx : Context} {pos : Position} {condition : Expr} {body : Stmt} {ty : Ty} {a a₁ a₂ : Assembly} :
      (condition.emit ctx).run a = .ok (ty, a₁) → ty ≠ .void → Runs ⟨ctx, body, a₁.push .jz (some 0) pos, a₂⟩ →
        Has ⟨ctx, .ifThen pos condition body, a, a₂.patch a₁.nextAddress⟩ ⟨ctx, body, a₁.push .jz (some 0) pos, a₂⟩
  | ifElse {ctx : Context} {pos elsePos : Position} {condition : Expr} {body other : Stmt} {ty : Ty} {a a₁ a₂ a₃ : Assembly} :
      (condition.emit ctx).run a = .ok (ty, a₁) → ty ≠ .void → Runs ⟨ctx, body, a₁.push .jz (some 0) pos, a₂⟩ →
        Runs ⟨ctx, other, (a₂.push .jmp (some 0) elsePos).patch a₁.nextAddress, a₃⟩ →
        Has ⟨ctx, .ifElse pos condition body elsePos other, a, a₃.patch a₂.nextAddress⟩
          ⟨ctx, body, a₁.push .jz (some 0) pos, a₂⟩
  | alternative {ctx : Context} {pos elsePos : Position} {condition : Expr} {body other : Stmt} {ty : Ty}
      {a a₁ a₂ a₃ : Assembly} :
      (condition.emit ctx).run a = .ok (ty, a₁) → ty ≠ .void → Runs ⟨ctx, body, a₁.push .jz (some 0) pos, a₂⟩ →
        Runs ⟨ctx, other, (a₂.push .jmp (some 0) elsePos).patch a₁.nextAddress, a₃⟩ →
        Has ⟨ctx, .ifElse pos condition body elsePos other, a, a₃.patch a₂.nextAddress⟩
          ⟨ctx, other, (a₂.push .jmp (some 0) elsePos).patch a₁.nextAddress, a₃⟩
  | loop {ctx : Context} {pos : Position} {condition : Expr} {body : Stmt} {ty : Ty} {a a₁ a₂ : Assembly} :
      (condition.emit ctx).run a = .ok (ty, a₁) → ty ≠ .void →
        Runs ⟨{ ctx with loop := some a.nextAddress }, body, { a₁.push .jz (some 0) pos with breaks := [] }, a₂⟩ →
        Has ⟨ctx, .loop pos condition body, a, a₂.breaks.foldl Assembly.patch
            ((({ a₂ with breaks := a₁.breaks } : Assembly).push .jmp (some a.nextAddress) pos).patch a₁.nextAddress)⟩
          ⟨{ ctx with loop := some a.nextAddress }, body, { a₁.push .jz (some 0) pos with breaks := [] }, a₂⟩

/-- The second statement is the first, or is emitted as a part of it. -/
abbrev Covers : Emission → Emission → Prop := Relation.ReflTransGen Has

/-- The statement is a return, whose `RET` is at the address. The type is that of the value, or `void` where there is none. -/
inductive Returns : Emission → Ty → Nat → Prop
  | ret {ctx : Context} {pos stop : Position} {a a' : Assembly} : Returns ⟨ctx, .ret pos stop, a, a'⟩ .void a.nextAddress
  | retValue {ctx : Context} {pos : Position} {e : Expr} {ty : Ty} {a a₁ a' : Assembly} :
      (e.emit ctx).run a = .ok (ty, a₁) → Returns ⟨ctx, .retValue pos e, a, a'⟩ ty a₁.nextAddress

/-- The code of the statement is that part of the program that starts at the next address. Nothing is on the stack there, nor where
the jumps go that leave or repeat the loop around it. -/
structure Stands (calls : Nat → Option Signature) (lines : List CodeLine) (E : Emission) : Prop where
  run : E.Runs
  structured : E.stmt.Structured
  known : E.before.symbols.All (Binding.Callable (Signature.Known calls))
  zero : height calls lines E.before.nextAddress = 0
  placed : ∃ exit, (∀ head, E.ctx.loop = some head → height calls lines head = 0 ∧ height calls lines exit = 0) ∧
    ∀ code waiting, Stmt.Assembled E.ctx E.stmt E.before E.after code waiting → StandsAt lines E.before.nextAddress (code exit)

section

variable {calls : Nat → Option Signature} {lines : List CodeLine} {E E' : Emission}

/-! ## Parts of a statement that stands -/

/-- A statement that stands can be walked through with nothing on the stack before and behind it. -/
theorem Stands.exists_walk (h : E.Stands calls lines) :
    ∃ code, StandsAt lines E.before.nextAddress code ∧ E.after.nextAddress = E.before.nextAddress + code.length ∧
      Walk calls (fun n => height calls lines n = 0) E.ctx.Returns 0 code 0 := by
  obtain ⟨exit, hloop, hplaced⟩ := h.placed
  obtain ⟨code, waiting, hasm⟩ := Stmt.emitted h.structured h.run
  have hstands := hplaced code waiting hasm
  exact ⟨code exit, hstands, hasm.nextAddress_eq exit, (hasm.compiled exit).walk h.known hstands h.zero hloop⟩

/-- Nothing is on the stack behind the statement either. -/
theorem Stands.zero_after (h : E.Stands calls lines) : height calls lines E.after.nextAddress = 0 := by
  obtain ⟨code, hstands, hafter, hwalk⟩ := h.exists_walk
  rw [hafter, hstands.height_add, h.zero, hwalk.heightAfter_eq]

/-- Where a statement stands, so do those directly inside it. -/
theorem Stands.of_has (h : E.Stands calls lines) (hE : E.Has E') : E'.Stands calls lines := by
  obtain ⟨run, hs, hknown, hzero, exit, hloop, hplaced⟩ := h
  cases hE with
  | first h₁ h₂ =>
    obtain ⟨c₂, w₂, hasm₂⟩ := Stmt.emitted hs.2 h₂
    exact ⟨h₁, hs.1, hknown, hzero, exit, hloop, fun _ _ hasm₁ => (hplaced _ _ (hasm₁.seq hasm₂)).left⟩
  | @rest ctx first rest a a₁ a₂ h₁ h₂ =>
    obtain ⟨c₁, w₁, hasm₁⟩ := Stmt.emitted hs.1 h₁
    obtain ⟨c₂, w₂, hasm₂⟩ := Stmt.emitted hs.2 h₂
    have hfirst : Stands calls lines ⟨ctx, first, a, a₁⟩ :=
      ⟨h₁, hs.1, hknown, hzero, exit, hloop, fun _ _ hasm₁ => (hplaced _ _ (hasm₁.seq hasm₂)).left⟩
    refine ⟨h₂, hs.2, (hasm₁.compiled exit).all Binding.callable_markWritten (fun _ _ hv _ => hv) hknown, hfirst.zero_after, exit,
      hloop, fun code w hasm => ?_⟩
    have hright := (hplaced _ _ (hasm₁.seq hasm)).right
    rwa [← hasm₁.nextAddress_eq] at hright
  | block h₁ => exact ⟨h₁, hs, hknown.enter _, hzero, exit, hloop, fun _ _ hasm => hplaced _ _ hasm.block⟩
  | ifThen hc hty h₁ =>
    have hc := Expr.emitted hc
    obtain ⟨c₁, w₁, hasm₁⟩ := Stmt.emitted hs.2 h₁
    refine ⟨h₁, hs.2, hknown.of_written Binding.callable_markWritten hc.written, ?_, exit, hloop, fun code w hasm => ?_⟩
    · rw [Assembly.nextAddress_push, hc.nextAddress_eq]
      exact hc.typed.height_behind_condition hty hknown (hplaced _ _ (hasm₁.ifThen hc hty hs.1)) hzero
    · rw [Assembly.nextAddress_push, hc.nextAddress_eq]
      exact (hplaced _ _ (hasm.ifThen hc hty hs.1)).of_cons
  | ifElse hc hty h₁ h₂ =>
    have hc := Expr.emitted hc
    obtain ⟨hscoped₁, hscoped₂, hs₁, hs₂⟩ := hs
    obtain ⟨c₁, w₁, hasm₁⟩ := Stmt.emitted hs₁ h₁
    obtain ⟨c₂, w₂, hasm₂⟩ := Stmt.emitted hs₂ h₂
    refine ⟨h₁, hs₁, hknown.of_written Binding.callable_markWritten hc.written, ?_, exit, hloop, fun code w hasm => ?_⟩
    · rw [Assembly.nextAddress_push, hc.nextAddress_eq]
      exact hc.typed.height_behind_condition hty hknown (hplaced _ _ (.ifElse hc hty hscoped₁ hscoped₂ hasm₁ hasm₂)) hzero
    · rw [Assembly.nextAddress_push, hc.nextAddress_eq]
      exact (hplaced _ _ (.ifElse hc hty hscoped₁ hscoped₂ hasm hasm₂)).of_cons.left
  | alternative hc hty h₁ h₂ =>
    have hc := Expr.emitted hc
    obtain ⟨hscoped₁, hscoped₂, hs₁, hs₂⟩ := hs
    obtain ⟨c₁, w₁, hasm₁⟩ := Stmt.emitted hs₁ h₁
    obtain ⟨c₂, w₂, hasm₂⟩ := Stmt.emitted hs₂ h₂
    have hknown₁ := hknown.of_written Binding.callable_markWritten hc.written
    refine ⟨h₂, hs₂, hknown₁.of_written Binding.callable_markWritten ((hasm₁.compiled exit).written_of_scoped hscoped₁), ?_, exit,
      hloop, fun code w hasm => ?_⟩
    · rw [Assembly.nextAddress_patch, Assembly.nextAddress_push, hasm₁.nextAddress_eq exit, Assembly.nextAddress_push,
        hc.nextAddress_eq]
      exact (hplaced _ _ (.ifElse hc hty hscoped₁ hscoped₂ hasm₁ hasm₂)).of_cons.height_behind_jmp calls
    · rw [Assembly.nextAddress_patch, Assembly.nextAddress_push, hasm₁.nextAddress_eq exit, Assembly.nextAddress_push,
        hc.nextAddress_eq]
      exact (hplaced _ _ (.ifElse hc hty hscoped₁ hscoped₂ hasm₁ hasm)).of_cons.of_cons
  | @loop ctx pos condition body ty a a₁ a₂ hc hty h₁ =>
    have hc := Expr.emitted hc
    obtain ⟨c₁, w₁, hasm₁⟩ := Stmt.emitted hs.2 h₁
    have hnext : ({ a₁.push .jz (some 0) pos with breaks := [] } : Assembly).nextAddress =
        a.nextAddress + (condition.code ctx a.symbols).length + 1 := by
      rw [← hc.nextAddress_eq]
      exact a₁.nextAddress_push ..
    have hstands := hplaced _ _ (hasm₁.loop hc hty hs.1)
    refine ⟨h₁, hs.2, hknown.of_written Binding.callable_markWritten hc.written, ?_, a₂.code.length + 1, ?_, fun code w hasm => ?_⟩
    · rw [hnext]
      exact hc.typed.height_behind_condition hty hknown hstands hzero
    · rintro _ ⟨⟩
      refine ⟨hzero, ?_⟩
      have hend := hstands.of_cons.height_behind_jmp calls
      rwa [← hnext, ← hasm₁.nextAddress_eq] at hend
    · rw [hnext]
      exact (hplaced _ _ (hasm.loop hc hty hs.1)).of_cons.left

/-- Where a statement stands, so do all of those inside it. -/
theorem Stands.of_covers (h : E.Stands calls lines) (hE : E.Covers E') : E'.Stands calls lines := by
  induction hE with
  | refl => exact h
  | tail _ hlast ih => exact ih.of_has hlast

/-- The code of a part ends where that of the whole does, or before. -/
theorem Has.after_le (h : E.Has E') (hs : E.stmt.Structured) : E'.after.nextAddress ≤ E.after.nextAddress := by
  cases h with
  | first _ h₂ =>
    obtain ⟨code, w, hasm⟩ := Stmt.emitted hs.2 h₂
    rw [hasm.nextAddress_eq 0]
    exact Nat.le_add_right _ _
  | rest | block => exact Nat.le_refl _
  | ifThen | alternative => exact Nat.le_of_eq (Assembly.nextAddress_patch ..).symm
  | @ifElse _ _ _ _ _ _ _ _ _ a₂ a₃ _ _ _ h₂ =>
    obtain ⟨code, w, hasm⟩ := Stmt.emitted hs.2.2.2 h₂
    have hnext := hasm.nextAddress_eq 0
    rw [Assembly.nextAddress_patch, Assembly.nextAddress_push] at hnext
    rw [Assembly.nextAddress_patch, hnext]
    exact Nat.le_trans (Nat.le_succ a₂.nextAddress) (Nat.le_add_right _ _)
  | @loop _ _ _ _ _ _ a₁ a₂ =>
    rw [Assembly.nextAddress_foldl_patch, Assembly.nextAddress_patch, Assembly.nextAddress_push]
    exact Nat.le_succ _

/-- The code of a part at any depth ends where that of the whole does, or before. -/
theorem Stands.after_le_of_covers (h : E.Stands calls lines) (hE : E.Covers E') : E'.after.nextAddress ≤ E.after.nextAddress := by
  induction hE with
  | refl => exact Nat.le_refl _
  | tail hcovers hlast ih => exact Nat.le_trans (hlast.after_le (h.of_covers hcovers).structured) ih

/-! ## Returns -/

/-- The `RET` of a return is one of its instructions. -/
theorem Stands.lt_of_returns {ty : Ty} {n : Nat} (h : E.Stands calls lines) (hE : E.Returns ty n) : n < E.after.nextAddress := by
  cases hE with
  | @ret ctx pos stop a a' =>
    obtain ⟨-, hafter : a' = a.push .ret none pos⟩ := Stmt.run_emit_ret.1 h.run
    rw [hafter, Assembly.nextAddress_push]
    exact Nat.lt_succ_self _
  | @retValue ctx pos e ty a a₁ a' he =>
    obtain ⟨found, a₂, he', -, hafter : a' = a₂.push .ret none pos⟩ := Stmt.run_emit_retValue.1 h.run
    rw [he] at he'
    cases he'
    rw [hafter, Assembly.nextAddress_push]
    exact Nat.lt_succ_self _

/-- At the `RET` of a return just the value is on the stack, if there is one. -/
theorem Stands.height_of_returns {ty : Ty} {n : Nat} (h : E.Stands calls lines) (hE : E.Returns ty n) :
    height calls lines n = ty.width := by
  cases hE with
  | ret => exact h.zero
  | @retValue ctx pos e ty a a₁ a' he =>
    obtain ⟨exit, -, hplaced⟩ := h.placed
    obtain ⟨found, a₂, he', hty, rfl⟩ := Stmt.run_emit_retValue.1 h.run
    rw [he] at he'
    cases he'
    have he := Expr.emitted he
    have hstands := (hplaced _ _ (.retValue he hty)).left
    have hwalk : Walk calls (fun _ => True) (fun _ => True) 0 (e.code ctx a.symbols) (0 + ty.width) := he.typed.walk h.known 0
    rw [he.nextAddress_eq, hstands.height_add, h.zero, hwalk.heightAfter_eq, Nat.zero_add]

end

end Emission

end C0Stack
