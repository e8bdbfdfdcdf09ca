import C0Stack.Proofs.Code.Expr
import C0Stack.Proofs.Static.Stmt

/-!
# The code of statements

`Stmt.Compiled` relates a statement to its code, with all jump targets in place: where the code stands, where the loop around it
starts and where it ends are given from the start. The assembly reaches the same code by another way. It emits a jump forward with
no target, and sets the target later; the jumps out of a loop wait until the loop is complete. `Stmt.emitted` shows that the two
agree: what is emitted is the code in which the jumps out of the loop around it go to address zero, and patching the addresses that
wait turns this into the code in which they go where they are sent.
-/

namespace C0Stack

/-- The line with the given operand. -/
def CodeLine.withOperand (operand : Nat) (line : CodeLine) : CodeLine :=
  { line with instruction := { line.instruction with operand := some operand } }

/-- The code in which the lines at the given addresses have the given operand. -/
def patchAll (operand : Nat) (addresses : List Nat) (code : List CodeLine) : List CodeLine :=
  addresses.foldl (fun code address => code.modify address (CodeLine.withOperand operand)) code

@[simp] theorem patchAll_nil (operand : Nat) (code : List CodeLine) : patchAll operand [] code = code := rfl

/-- Addresses in two lists are patched one list after the other. -/
theorem patchAll_append (operand : Nat) (ns ms : List Nat) (code : List CodeLine) :
    patchAll operand (ns ++ ms) code = patchAll operand ms (patchAll operand ns code) :=
  List.foldl_append

/-- The line at the end of the first part is the one that changes. -/
theorem modify_append_cons (f : CodeLine → CodeLine) (pre post : List CodeLine) (line : CodeLine) :
    (pre ++ line :: post).modify pre.length f = pre ++ f line :: post := by
  induction pre with
  | nil => rfl
  | cons l pre ih => simp [ih]

namespace Assembly

/-- The line at the address gets the next address as its operand. -/
@[simp] theorem code_patch (a : Assembly) (address : Nat) :
    (a.patch address).code = a.code.modify address (CodeLine.withOperand a.code.length) :=
  Array.toList_modify

theorem length_code_patch (a : Assembly) (address : Nat) : (a.patch address).code.length = a.code.length := by simp

@[simp] theorem symbols_patch (a : Assembly) (address : Nat) : (a.patch address).symbols = a.symbols := rfl

@[simp] theorem breaks_patch (a : Assembly) (address : Nat) : (a.patch address).breaks = a.breaks := rfl

/-- A jump that has been emitted gets the next address as its target. -/
theorem code_patch_of_eq {a : Assembly} {pre post : List CodeLine} {op : Operation} {pos : Position} {address : Nat}
    (h : a.code = pre ++ ⟨⟨op, some 0⟩, pos⟩ :: post) (haddress : address = pre.length) :
    (a.patch address).code = pre ++ ⟨⟨op, some a.code.length⟩, pos⟩ :: post := by
  rw [code_patch, haddress]
  generalize a.code.length = n
  rw [h, modify_append_cons]
  rfl

/-- Patching leaves the names in scope. -/
theorem symbols_foldl_patch (addresses : List Nat) (a : Assembly) :
    (addresses.foldl patch a).symbols = a.symbols := by
  induction addresses generalizing a with
  | nil => rfl
  | cons n ns ih => exact ih (a.patch n)

theorem breaks_foldl_patch (addresses : List Nat) (a : Assembly) : (addresses.foldl patch a).breaks = a.breaks := by
  induction addresses generalizing a with
  | nil => rfl
  | cons n ns ih => exact ih (a.patch n)

/-- Patching does not move the next address, so all of the jumps get the same target. -/
theorem code_foldl_patch (addresses : List Nat) (a : Assembly) :
    (addresses.foldl patch a).code = patchAll a.code.length addresses a.code := by
  induction addresses generalizing a with
  | nil => rfl
  | cons n ns ih =>
    rw [List.foldl_cons, ih, length_code_patch, code_patch]
    rfl

end Assembly

namespace Stmt

open Assembling

/-! ## What each kind of statement emits -/

section

variable {ctx : Context} {a a' : Assembly} {pos : Position} {u : Unit}

/-- Statements are emitted one after the other. -/
theorem run_emit_seq {first rest : Stmt} :
    ((seq first rest).emit ctx).run a = .ok (u, a') ↔
      ∃ a₁, (first.emit ctx).run a = .ok ((), a₁) ∧ (rest.emit ctx).run a₁ = .ok ((), a') := by
  rw [emit, run_bind_eq_ok]
  constructor
  · rintro ⟨_, a₁, h₁, h₂⟩
    exact ⟨a₁, h₁, h₂⟩
  · rintro ⟨a₁, h₁, h₂⟩
    exact ⟨(), a₁, h₁, h₂⟩

/-- A declaration without a value emits nothing. -/
theorem run_emit_decl {constant : Bool} {x target : Ident} :
    ((decl pos constant x target none).emit ctx).run a = .ok (u, a') ↔
      ∃ ty v t, Ty.named? target.name = some ty ∧ ty ≠ .void ∧
        a.symbols.declare x.name constant ty x.pos = .ok (v, t) ∧ a' = { a with symbols := t } := by
  rw [emit, emitDecl]
  simp only [run_bind_eq_ok, run_resolveType_eq_ok, run_declare_eq_ok, run_pure_eq_ok]
  constructor
  · rintro ⟨ty, _, ⟨hname, hty, rfl⟩, v, _, ⟨t, ht, rfl⟩, -, rfl⟩
    exact ⟨ty, v, t, hname, hty trivial, ht, rfl⟩
  · rintro ⟨ty, v, t, hname, hty, ht, rfl⟩
    exact ⟨ty, a, ⟨hname, fun _ => hty, rfl⟩, v, _, ⟨t, ht, rfl⟩, trivial, rfl⟩

/-- A declaration with a value emits the value and a store. -/
theorem run_emit_init {constant : Bool} {x target : Ident} {e : Expr} :
    ((decl pos constant x target (some e)).emit ctx).run a = .ok (u, a') ↔
      ∃ ty v t a₁ t₁, Ty.named? target.name = some ty ∧ ty ≠ .void ∧
        a.symbols.declare x.name constant ty x.pos = .ok (v, t) ∧
        (e.emit ctx).run { a with symbols := t } = .ok (v.ty, a₁) ∧ a₁.symbols.markWritten x.name x.pos = .ok t₁ ∧
        a' = { a₁.push (ctx.storeOp v) (some v.slot) pos with symbols := t₁ } := by
  rw [emit, emitDecl]
  simp only [run_bind_eq_ok, run_resolveType_eq_ok, run_declare_eq_ok, emitInit, run_requireType_eq_ok, run_emit_eq_ok,
    run_markWritten_eq_ok]
  constructor
  · rintro ⟨ty, _, ⟨hname, hty, rfl⟩, v, _, ⟨t, ht, rfl⟩, _, a₁, he, _, _, ⟨rfl, rfl⟩, _, _, rfl, t₁, ht₁, rfl⟩
    exact ⟨ty, v, t, _, t₁, hname, hty trivial, ht, he, ht₁, rfl⟩
  · rintro ⟨ty, v, t, a₁, t₁, hname, hty, ht, he, ht₁, rfl⟩
    exact ⟨ty, a, ⟨hname, fun _ => hty, rfl⟩, v, _, ⟨t, ht, rfl⟩, _, a₁, he, (), _, ⟨rfl, rfl⟩, (), _, rfl, t₁, ht₁, rfl⟩

/-- An expression is emitted, and a `POP` behind it if it has a value. -/
theorem run_emit_expr {e : Expr} :
    ((expr e).emit ctx).run a = .ok (u, a') ↔
      ∃ ty a₁, (e.emit ctx).run a = .ok (ty, a₁) ∧ a' = if ty = .void then a₁ else a₁.push .pop none e.start := by
  rw [emit, run_bind_eq_ok]
  constructor
  · rintro ⟨ty, a₁, he, h⟩
    refine ⟨ty, a₁, he, ?_⟩
    by_cases hty : ty = .void
    · rw [if_neg (by simpa using hty)] at h
      rw [if_pos hty]
      exact (run_pure_eq_ok.1 h).2
    · rw [if_pos hty] at h
      rw [if_neg hty]
      exact run_emit_eq_ok.1 h
  · rintro ⟨ty, a₁, he, rfl⟩
    refine ⟨ty, a₁, he, ?_⟩
    by_cases hty : ty = .void
    · rw [if_neg (by simpa using hty), if_pos hty]
      exact run_pure_eq_ok.2 ⟨rfl, rfl⟩
    · rw [if_pos hty, if_neg hty]
      exact run_emit_eq_ok.2 rfl

/-- A block is emitted in a scope of its own. -/
theorem run_emit_block {body : Stmt} :
    ((block body).emit ctx).run a = .ok (u, a') ↔
      ∃ a₁, (body.emit ctx).run { a with symbols := a.symbols.enterBlock } = .ok ((), a₁) ∧
        a' = { a₁ with symbols := a₁.symbols.leave } := by
  rw [emit]
  simp only [run_bind_eq_ok, run_modifySymbols_eq_ok]
  constructor
  · rintro ⟨_, _, rfl, _, a₁, hbody, rfl⟩
    exact ⟨a₁, hbody, rfl⟩
  · rintro ⟨a₁, hbody, rfl⟩
    exact ⟨(), _, rfl, (), a₁, hbody, rfl⟩

/-- A condition has a type that has values. -/
theorem run_emitCondition {condition : Expr} :
    (emitCondition ctx condition).run a = .ok (u, a') ↔
      ∃ ty, (condition.emit ctx).run a = .ok (ty, a') ∧ ty ≠ .void := by
  rw [emitCondition]
  simp only [run_bind_eq_ok, run_requireValue_eq_ok]
  constructor
  · rintro ⟨ty, _, hc, hty, rfl⟩
    exact ⟨ty, hc, hty⟩
  · rintro ⟨ty, hc, hty⟩
    exact ⟨ty, a', hc, hty, rfl⟩

/-- A conditional emits a jump over its body. -/
theorem run_emit_ifThen {condition : Expr} {body : Stmt} :
    ((ifThen pos condition body).emit ctx).run a = .ok (u, a') ↔
      ∃ ty a₁ a₂, (condition.emit ctx).run a = .ok (ty, a₁) ∧ ty ≠ .void ∧
        (body.emit ctx).run (a₁.push .jz (some 0) pos) = .ok ((), a₂) ∧ a' = a₂.patch a₁.nextAddress := by
  rw [emit]
  simp only [run_bind_eq_ok, run_emitCondition, run_emitJump_eq_ok, run_patch_eq_ok]
  constructor
  · rintro ⟨_, a₁, ⟨ty, hc, hty⟩, _, _, ⟨rfl, rfl⟩, _, a₂, hbody, rfl⟩
    exact ⟨ty, a₁, a₂, hc, hty, hbody, rfl⟩
  · rintro ⟨ty, a₁, a₂, hc, hty, hbody, rfl⟩
    exact ⟨(), a₁, ⟨ty, hc, hty⟩, _, _, ⟨rfl, rfl⟩, (), a₂, hbody, rfl⟩

/-- A conditional with an alternative emits a jump to the second branch and one over it. -/
theorem run_emit_ifElse {condition : Expr} {body other : Stmt} {elsePos : Position} :
    ((ifElse pos condition body elsePos other).emit ctx).run a = .ok (u, a') ↔
      ∃ ty a₁ a₂ a₃, (condition.emit ctx).run a = .ok (ty, a₁) ∧ ty ≠ .void ∧
        (body.emit ctx).run (a₁.push .jz (some 0) pos) = .ok ((), a₂) ∧
        (other.emit ctx).run ((a₂.push .jmp (some 0) elsePos).patch a₁.nextAddress) = .ok ((), a₃) ∧
        a' = a₃.patch a₂.nextAddress := by
  rw [emit]
  simp only [run_bind_eq_ok, run_emitCondition, run_emitJump_eq_ok, run_patch_eq_ok]
  constructor
  · rintro ⟨_, a₁, ⟨ty, hc, hty⟩, _, _, ⟨rfl, rfl⟩, _, a₂, hbody, _, _, ⟨rfl, rfl⟩, _, _, rfl, _, a₃, hother, rfl⟩
    exact ⟨ty, a₁, a₂, a₃, hc, hty, hbody, hother, rfl⟩
  · rintro ⟨ty, a₁, a₂, a₃, hc, hty, hbody, hother, rfl⟩
    exact ⟨(), a₁, ⟨ty, hc, hty⟩, _, _, ⟨rfl, rfl⟩, (), a₂, hbody, _, _, ⟨rfl, rfl⟩, (), _, rfl, (), a₃, hother, rfl⟩

/-- A loop emits a jump out of it behind the condition, and one back behind the body. -/
theorem run_emit_loop {condition : Expr} {body : Stmt} :
    ((loop pos condition body).emit ctx).run a = .ok (u, a') ↔
      ∃ ty a₁ a₂, (condition.emit ctx).run a = .ok (ty, a₁) ∧ ty ≠ .void ∧
        (body.emit { ctx with loop := some a.nextAddress }).run { a₁.push .jz (some 0) pos with breaks := [] } = .ok ((), a₂) ∧
        a' = a₂.breaks.foldl Assembly.patch
          ((({ a₂ with breaks := a₁.breaks } : Assembly).push .jmp (some a.nextAddress) pos).patch a₁.nextAddress) := by
  rw [emit]
  simp only [run_bind_eq_ok, run_nextAddress_eq_ok, run_emitCondition, run_emitJump_eq_ok, run_swapBreaks_eq_ok,
    run_emit_eq_ok, run_patch_eq_ok, run_forM_patch_eq_ok]
  constructor
  · rintro ⟨_, _, ⟨rfl, rfl⟩, _, a₁, ⟨ty, hc, hty⟩, _, _, ⟨rfl, rfl⟩, _, _, ⟨rfl, rfl⟩, _, a₂, hbody, _, _, ⟨rfl, rfl⟩, _, _,
      rfl, _, _, rfl, rfl⟩
    exact ⟨ty, a₁, a₂, hc, hty, hbody, rfl⟩
  · rintro ⟨ty, a₁, a₂, hc, hty, hbody, rfl⟩
    exact ⟨_, _, ⟨rfl, rfl⟩, (), a₁, ⟨ty, hc, hty⟩, _, _, ⟨rfl, rfl⟩, _, _, ⟨rfl, rfl⟩, (), a₂, hbody, _, _, ⟨rfl, rfl⟩, (), _,
      rfl, (), _, rfl, rfl⟩

/-- Inside a loop its start is known. -/
theorem run_loopHead {keyword : Token.Kind} {head : Nat} :
    (loopHead ctx keyword pos).run a = .ok (head, a') ↔ ctx.loop = some head ∧ a' = a := by
  unfold loopHead
  cases ctx.loop with
  | none => simp only [run_fail_eq_ok, reduceCtorEq, false_and]
  | some head' => simp only [run_pure_eq_ok, Option.some.injEq, @eq_comm _ head]

/-- A `break` emits a jump that waits for the end of the loop. -/
theorem run_emit_leave :
    ((leave pos).emit ctx).run a = .ok (u, a') ↔
      ctx.loop.isSome ∧ a' = { a.push .jmp (some 0) pos with breaks := a.nextAddress :: a.breaks } := by
  rw [emit]
  simp only [run_bind_eq_ok, run_loopHead, run_emitJump_eq_ok, run_modify_eq_ok, Option.isSome_iff_exists]
  constructor
  · rintro ⟨head, _, ⟨hhead, rfl⟩, _, _, ⟨rfl, rfl⟩, rfl⟩
    exact ⟨⟨head, hhead⟩, rfl⟩
  · rintro ⟨⟨head, hhead⟩, rfl⟩
    exact ⟨head, a, ⟨hhead, rfl⟩, _, _, ⟨rfl, rfl⟩, rfl⟩

/-- A `continue` emits a jump to the start of the loop. -/
theorem run_emit_again :
    ((again pos).emit ctx).run a = .ok (u, a') ↔
      ∃ head, ctx.loop = some head ∧ a' = a.push .jmp (some head) pos := by
  rw [emit]
  simp only [run_bind_eq_ok, run_loopHead, run_emit_eq_ok]
  constructor
  · rintro ⟨head, _, ⟨hhead, rfl⟩, rfl⟩
    exact ⟨head, hhead, rfl⟩
  · rintro ⟨head, hhead, rfl⟩
    exact ⟨head, a, ⟨hhead, rfl⟩, rfl⟩

/-- A return agrees with the type of the function around it, if there is one. -/
theorem run_checkReturn {found : Ty} :
    (checkReturn ctx found pos).run a = .ok (u, a') ↔ (∀ ty, ctx.function = some ty → found = ty) ∧ a' = a := by
  unfold checkReturn
  cases ctx.function with
  | none => simp only [run_pure_eq_ok, reduceCtorEq, false_implies, implies_true, true_and]
  | some expected => simp only [run_requireType_eq_ok, Option.some.injEq, forall_eq']

/-- A return without a value emits a `RET`. -/
theorem run_emit_ret {stop : Position} :
    ((ret pos stop).emit ctx).run a = .ok (u, a') ↔
      (∀ ty, ctx.function = some ty → ty = .void) ∧ a' = a.push .ret none pos := by
  rw [emit]
  simp only [run_bind_eq_ok, run_checkReturn, run_emit_eq_ok, @eq_comm _ Ty.void]
  constructor
  · rintro ⟨_, _, ⟨hty, rfl⟩, rfl⟩
    exact ⟨hty, rfl⟩
  · rintro ⟨hty, rfl⟩
    exact ⟨(), a, ⟨hty, rfl⟩, rfl⟩

/-- A return with a value emits the value and a `RET`. -/
theorem run_emit_retValue {e : Expr} :
    ((retValue pos e).emit ctx).run a = .ok (u, a') ↔
      ∃ found a₁, (e.emit ctx).run a = .ok (found, a₁) ∧ (∀ ty, ctx.function = some ty → found = ty) ∧
        a' = a₁.push .ret none pos := by
  rw [emit]
  simp only [run_bind_eq_ok, run_checkReturn, run_emit_eq_ok]
  constructor
  · rintro ⟨found, a₁, he, _, _, ⟨hty, rfl⟩, rfl⟩
    exact ⟨found, _, he, hty, rfl⟩
  · rintro ⟨found, a₁, he, hty, rfl⟩
    exact ⟨found, a₁, he, (), a₁, ⟨hty, rfl⟩, rfl⟩

end

/-! ## The code with all jump targets -/

/-- The statement declares nothing for what comes after it: it is a block, or a conditional whose branches are. -/
def Scoped : Stmt → Prop
  | block _ => True
  | ifThen _ _ body => body.Scoped
  | ifElse _ _ body _ other => body.Scoped ∧ other.Scoped
  | _ => False

/-- Branches and the bodies of loops declare nothing for what comes after them. -/
def Structured : Stmt → Prop
  | seq first rest => first.Structured ∧ rest.Structured
  | block body => body.Structured
  | ifThen _ _ body | loop _ _ body => body.Scoped ∧ body.Structured
  | ifElse _ _ body _ other => body.Scoped ∧ other.Scoped ∧ body.Structured ∧ other.Structured
  | _ => True

/-- The statement, where the table is the first one and the next address is `base`, has the given code, and leaves the second
table. A jump out of the loop around it goes to `exit`. -/
inductive Compiled : Context → Nat → SymbolTable → Nat → Stmt → List CodeLine → SymbolTable → Prop
  | nil {ctx : Context} {exit : Nat} {t : SymbolTable} {base : Nat} : Compiled ctx exit t base .nil [] t
  | seq {ctx : Context} {exit : Nat} {t t₁ t₂ : SymbolTable} {base : Nat} {first rest : Stmt} {c₁ c₂ : List CodeLine} :
      Compiled ctx exit t base first c₁ t₁ → Compiled ctx exit t₁ (base + c₁.length) rest c₂ t₂ →
        Compiled ctx exit t base (.seq first rest) (c₁ ++ c₂) t₂
  | empty {ctx : Context} {exit : Nat} {t : SymbolTable} {base : Nat} : Compiled ctx exit t base .empty [] t
  | decl {ctx : Context} {exit : Nat} {t t' : SymbolTable} {base : Nat} {pos : Position} {constant : Bool} {x target : Ident}
      {ty : Ty} {v : Variable} :
      ty ≠ .void → t.declare x.name constant ty x.pos = .ok (v, t') →
        Compiled ctx exit t base (.decl pos constant x target none) [] t'
  | init {ctx : Context} {exit : Nat} {t t₁ t' : SymbolTable} {base : Nat} {pos : Position} {constant : Bool}
      {x target : Ident} {ty : Ty} {v : Variable} {e : Expr} {Γ : Scopes} :
      ty ≠ .void → t.declare x.name constant ty x.pos = .ok (v, t₁) → HasType t₁.scopes e ty Γ → t'.written = t₁.written →
        Compiled ctx exit t base (.decl pos constant x target (some e))
          (e.code ctx t₁ ++ [⟨⟨ctx.storeOp v, some v.slot⟩, pos⟩]) t'
  | expr {ctx : Context} {exit : Nat} {t t' : SymbolTable} {base : Nat} {e : Expr} {ty : Ty} :
      HasType t.scopes e ty t'.scopes → t'.written = t.written →
        Compiled ctx exit t base (.expr e) (e.code ctx t ++ if ty = .void then [] else [⟨⟨.pop, none⟩, e.start⟩]) t'
  | block {ctx : Context} {exit : Nat} {t t' : SymbolTable} {base : Nat} {body : Stmt} {code : List CodeLine} :
      Compiled ctx exit t.enterBlock base body code t' → Compiled ctx exit t base (.block body) code t'.leave
  /-- Condition; `JZ` behind the body; body. -/
  | ifThen {ctx : Context} {exit skip : Nat} {t t₁ t₂ : SymbolTable} {base : Nat} {pos : Position} {condition : Expr} {ty : Ty}
      {body : Stmt} {code : List CodeLine} :
      HasType t.scopes condition ty t₁.scopes → ty ≠ .void → t₁.written = t.written → t₂.written = t₁.written →
        Compiled ctx exit t₁ (base + (condition.code ctx t).length + 1) body code t₂ →
        skip = base + (condition.code ctx t).length + 1 + code.length →
        Compiled ctx exit t base (.ifThen pos condition body)
          (condition.code ctx t ++ ⟨⟨.jz, some skip⟩, pos⟩ :: code) t₂
  /-- Condition; `JZ` to the alternative; body; `JMP` behind the alternative; alternative. -/
  | ifElse {ctx : Context} {exit skip stop : Nat} {t t₁ t₂ t₃ : SymbolTable} {base : Nat} {pos elsePos : Position}
      {condition : Expr} {ty : Ty} {body other : Stmt} {code code' : List CodeLine} :
      HasType t.scopes condition ty t₁.scopes → ty ≠ .void → t₁.written = t.written → t₂.written = t₁.written →
        t₃.written = t₂.written → Compiled ctx exit t₁ (base + (condition.code ctx t).length + 1) body code t₂ →
        skip = base + (condition.code ctx t).length + 1 + code.length + 1 → Compiled ctx exit t₂ skip other code' t₃ →
        stop = skip + code'.length →
        Compiled ctx exit t base (.ifElse pos condition body elsePos other)
          (condition.code ctx t ++ ⟨⟨.jz, some skip⟩, pos⟩ :: (code ++ ⟨⟨.jmp, some stop⟩, elsePos⟩ :: code')) t₃
  /-- Condition; `JZ` behind the loop; body, which knows where the loop starts and ends; `JMP` to the condition. -/
  | loop {ctx : Context} {exit stop : Nat} {t t₁ t₂ : SymbolTable} {base : Nat} {pos : Position} {condition : Expr} {ty : Ty}
      {body : Stmt} {code : List CodeLine} :
      HasType t.scopes condition ty t₁.scopes → ty ≠ .void → t₁.written = t.written → t₂.written = t₁.written →
        body.Scoped →
        Compiled { ctx with loop := some base } stop t₁ (base + (condition.code ctx t).length + 1) body code t₂ →
        stop = base + (condition.code ctx t).length + 1 + code.length + 1 →
        Compiled ctx exit t base (.loop pos condition body)
          (condition.code ctx t ++ ⟨⟨.jz, some stop⟩, pos⟩ :: (code ++ [⟨⟨.jmp, some base⟩, pos⟩])) t₂
  | leave {ctx : Context} {exit : Nat} {t : SymbolTable} {base : Nat} {pos : Position} :
      ctx.loop.isSome → Compiled ctx exit t base (.leave pos) [⟨⟨.jmp, some exit⟩, pos⟩] t
  | again {ctx : Context} {exit head : Nat} {t : SymbolTable} {base : Nat} {pos : Position} :
      ctx.loop = some head → Compiled ctx exit t base (.again pos) [⟨⟨.jmp, some head⟩, pos⟩] t
  | ret {ctx : Context} {exit : Nat} {t : SymbolTable} {base : Nat} {pos stop : Position} :
      (∀ ty, ctx.function = some ty → ty = .void) → Compiled ctx exit t base (.ret pos stop) [⟨⟨.ret, none⟩, pos⟩] t
  | retValue {ctx : Context} {exit : Nat} {t t' : SymbolTable} {base : Nat} {pos : Position} {e : Expr} {found : Ty} :
      HasType t.scopes e found t'.scopes → t'.written = t.written → (∀ ty, ctx.function = some ty → found = ty) →
        Compiled ctx exit t base (.retValue pos e) (e.code ctx t ++ [⟨⟨.ret, none⟩, pos⟩]) t'

/-! ### What a statement does to the table -/

/-- Closing a scope undoes what opening it and declaring in it did. -/
theorem written_leave {t t' : SymbolTable} (h : t'.written.frames.tail = t.written.frames) : t'.leave.written = t.written := by
  obtain ⟨nested, outermost⟩ := t'
  cases nested with
  | nil =>
    -- there is no frame behind the only one, but `t` has at least one
    rw [SymbolTable.frames_eq_cons t.written] at h
    cases h
  | cons f nested =>
    apply SymbolTable.frames_injective
    rw [← h]
    rfl

/-- A statement declares in the innermost scope only: of the others, no name gets another slot. -/
theorem Compiled.tail_frames {ctx : Context} {exit : Nat} {t t' : SymbolTable} {base : Nat} {s : Stmt} {code : List CodeLine}
    (h : Compiled ctx exit t base s code t') : t'.written.frames.tail = t.written.frames.tail := by
  induction h with
  | nil | empty | leave | again | ret => rfl
  | seq _ _ ih ih' => rw [ih', ih]
  | decl _ h => exact SymbolTable.tail_frames_declare h
  | init _ h _ hw => rw [hw, SymbolTable.tail_frames_declare h]
  | expr _ hw => rw [hw]
  | block _ ih => rw [written_leave (by rw [ih]; rfl)]
  | ifThen _ _ hw hw' => rw [hw', hw]
  | ifElse _ _ hw hw' hw'' => rw [hw'', hw', hw]
  | loop _ _ hw hw' => rw [hw', hw]
  | retValue _ hw => rw [hw]

/-- Behind a block every name has the slot that it had in front of it. -/
theorem Compiled.written_leave {ctx : Context} {exit : Nat} {t t' : SymbolTable} {base : Nat} {body : Stmt}
    {code : List CodeLine} (h : Compiled ctx exit t.enterBlock base body code t') : t'.leave.written = t.written :=
  Stmt.written_leave (by rw [h.tail_frames]; rfl)

/-- Behind a statement with a scope of its own every name has the slot that it had in front of it. -/
theorem Compiled.written_of_scoped {ctx : Context} {exit : Nat} {t t' : SymbolTable} {base : Nat} {s : Stmt}
    {code : List CodeLine} (h : Compiled ctx exit t base s code t') (hs : s.Scoped) : t'.written = t.written := by
  cases h with
  | block h => exact h.written_leave
  | ifThen _ _ hw hw' => exact hw'.trans hw
  | ifElse _ _ hw hw' hw'' => exact hw''.trans (hw'.trans hw)
  | _ => exact hs.elim

/-! ## The code that is emitted -/

/-- What the assembly is after the statement has been emitted. `code exit` is its code if jumps out of the loop around it go to
`exit`, and `waiting` are the addresses of these jumps. -/
structure Assembled (ctx : Context) (s : Stmt) (a a' : Assembly) (code : Nat → List CodeLine) (waiting : List Nat) :
    Prop where
  compiled : ∀ exit, Compiled ctx exit a.symbols a.code.length s (code exit) a'.symbols
  code_eq : a'.code = a.code ++ code 0
  breaks_eq : a'.breaks = waiting ++ a.breaks
  length_eq : ∀ exit, (code exit).length = (code 0).length
  patchAll_eq : ∀ exit (pre post : List CodeLine), pre.length = a.code.length →
    patchAll exit waiting (pre ++ (code 0 ++ post)) = pre ++ (code exit ++ post)

/-- A statement that holds no jump out of a loop around it has the same code whatever is around it. -/
theorem Assembled.of_closed {ctx : Context} {s : Stmt} {a a' : Assembly} {code : List CodeLine}
    (hc : ∀ exit, Compiled ctx exit a.symbols a.code.length s code a'.symbols) (hcode : a'.code = a.code ++ code)
    (hbreaks : a'.breaks = a.breaks) : Assembled ctx s a a' (fun _ => code) [] :=
  ⟨hc, hcode, hbreaks, fun _ => rfl, fun _ _ _ _ => rfl⟩

/-- Of two statements the jumps wait together. -/
theorem Assembled.seq {ctx : Context} {first rest : Stmt} {a a₁ a₂ : Assembly} {c₁ c₂ : Nat → List CodeLine}
    {w₁ w₂ : List Nat} (h₁ : Assembled ctx first a a₁ c₁ w₁) (h₂ : Assembled ctx rest a₁ a₂ c₂ w₂) :
    Assembled ctx (.seq first rest) a a₂ (fun exit => c₁ exit ++ c₂ exit) (w₂ ++ w₁) where
  compiled exit := by
    refine .seq (h₁.compiled exit) ?_
    rw [h₁.length_eq, ← List.length_append, ← h₁.code_eq]
    exact h₂.compiled exit
  code_eq := by rw [h₂.code_eq, h₁.code_eq, List.append_assoc]
  breaks_eq := by rw [h₂.breaks_eq, h₁.breaks_eq, List.append_assoc]
  length_eq exit := by rw [List.length_append, h₁.length_eq, h₂.length_eq, List.length_append]
  patchAll_eq exit pre post hpre := by
    have hpre₂ : (pre ++ c₁ 0).length = a₁.code.length := by
      rw [h₁.code_eq, List.length_append, List.length_append, hpre]
    have hp₂ := h₂.patchAll_eq exit (pre ++ c₁ 0) post hpre₂
    have hp₁ := h₁.patchAll_eq exit pre (c₂ exit ++ post) hpre
    simp only [List.append_assoc] at hp₂ ⊢
    rw [patchAll_append, hp₂, hp₁]

/-- A block has the code of its body. -/
theorem Assembled.block {ctx : Context} {body : Stmt} {a a₁ : Assembly} {code : Nat → List CodeLine} {w : List Nat}
    (h : Assembled ctx body { a with symbols := a.symbols.enterBlock } a₁ code w) :
    Assembled ctx (.block body) a { a₁ with symbols := a₁.symbols.leave } code w :=
  ⟨fun exit => .block (h.compiled exit), h.code_eq, h.breaks_eq, h.length_eq, h.patchAll_eq⟩

/-- A declaration with a value holds no jump. -/
theorem Assembled.init {ctx : Context} {pos : Position} {constant : Bool} {x target : Ident} {e : Expr} {ty : Ty} {v : Variable}
    {t t₁ : SymbolTable} {a a₁ : Assembly} (hty : ty ≠ .void) (ht : a.symbols.declare x.name constant ty x.pos = .ok (v, t))
    (he : Expr.Emitted ctx e v.ty { a with symbols := t } a₁) (ht₁ : a₁.symbols.markWritten x.name x.pos = .ok t₁) :
    Assembled ctx (.decl pos constant x target (some e)) a { a₁.push (ctx.storeOp v) (some v.slot) pos with symbols := t₁ }
      (fun _ => e.code ctx t ++ [⟨⟨ctx.storeOp v, some v.slot⟩, pos⟩]) [] := by
  obtain rfl : v.ty = ty := by
    obtain ⟨-, rfl, -⟩ := SymbolTable.declare_eq_ok.1 ht
    rfl
  refine .of_closed (fun _ => .init hty ht he.typed ((SymbolTable.written_markWritten ht₁).trans he.written)) ?_ he.breaks_eq
  change (a₁.push _ _ _).code = _
  rw [Assembly.code_push, he.code_eq, List.append_assoc]
  rfl

/-- Nor does an expression. -/
theorem Assembled.expr {ctx : Context} {e : Expr} {ty : Ty} {a a₁ : Assembly} (he : Expr.Emitted ctx e ty a a₁) :
    Assembled ctx (.expr e) a (if ty = .void then a₁ else a₁.push .pop none e.start)
      (fun _ => e.code ctx a.symbols ++ if ty = .void then [] else [⟨⟨.pop, none⟩, e.start⟩]) [] := by
  by_cases hty : ty = .void
  · rw [if_pos hty]
    refine .of_closed (fun _ => .expr he.typed he.written) ?_ he.breaks_eq
    rw [if_pos hty, List.append_nil, he.code_eq]
  · rw [if_neg hty]
    refine .of_closed (fun _ => .expr he.typed he.written) ?_ he.breaks_eq
    rw [if_neg hty, Assembly.code_push, he.code_eq, List.append_assoc]

/-- Nor does a return with a value. -/
theorem Assembled.retValue {ctx : Context} {pos : Position} {e : Expr} {found : Ty} {a a₁ : Assembly}
    (he : Expr.Emitted ctx e found a a₁) (hty : ∀ ty, ctx.function = some ty → found = ty) :
    Assembled ctx (.retValue pos e) a (a₁.push .ret none pos) (fun _ => e.code ctx a.symbols ++ [⟨⟨.ret, none⟩, pos⟩]) [] := by
  refine .of_closed (fun _ => .retValue he.typed he.written hty) ?_ he.breaks_eq
  rw [Assembly.code_push, he.code_eq, List.append_assoc]

/-- The jumps out of a conditional are those out of its body. -/
theorem Assembled.ifThen {ctx : Context} {pos : Position} {condition : Expr} {body : Stmt} {ty : Ty} {a a₁ a₂ : Assembly}
    {code : Nat → List CodeLine} {w : List Nat} (hc : Expr.Emitted ctx condition ty a a₁) (hty : ty ≠ .void)
    (hscoped : body.Scoped) (h : Assembled ctx body (a₁.push .jz (some 0) pos) a₂ code w) :
    Assembled ctx (.ifThen pos condition body) a (a₂.patch a₁.nextAddress)
      (fun exit => condition.code ctx a.symbols ++ ⟨⟨.jz, some a₂.code.length⟩, pos⟩ :: code exit) w := by
  have hcode : a₂.code = a₁.code ++ ⟨⟨.jz, some 0⟩, pos⟩ :: code 0 := by simp [h.code_eq]
  have hbase : (a₁.push .jz (some 0) pos).code.length = a.code.length + (condition.code ctx a.symbols).length + 1 := by
    simp [hc.code_eq, Nat.add_assoc]
  refine ⟨fun exit => ?_, ?_, ?_, fun exit => ?_, fun exit pre post hpre => ?_⟩
  · have hbody := h.compiled exit
    refine .ifThen hc.typed hty hc.written (hbody.written_of_scoped hscoped) (hbase ▸ hbody) ?_
    rw [h.length_eq exit, h.code_eq, List.length_append, hbase]
  · rw [Assembly.code_patch_of_eq hcode a₁.nextAddress_eq, hc.code_eq, List.append_assoc]
  · rw [Assembly.breaks_patch, h.breaks_eq, Assembly.breaks_push, hc.breaks_eq]
  · simp [h.length_eq exit]
  · have hp := h.patchAll_eq exit (pre ++ (condition.code ctx a.symbols ++ [⟨⟨.jz, some a₂.code.length⟩, pos⟩])) post
      (by simp [hc.code_eq, hpre])
    simpa only [List.append_assoc, List.cons_append, List.nil_append] using hp

/-- The jumps out of a conditional with an alternative are those out of both branches. -/
theorem Assembled.ifElse {ctx : Context} {pos elsePos : Position} {condition : Expr} {body other : Stmt} {ty : Ty}
    {a a₁ a₂ a₃ : Assembly} {c₂ c₃ : Nat → List CodeLine} {w₂ w₃ : List Nat} (hc : Expr.Emitted ctx condition ty a a₁)
    (hty : ty ≠ .void) (hscoped₂ : body.Scoped) (hscoped₃ : other.Scoped)
    (h₂ : Assembled ctx body (a₁.push .jz (some 0) pos) a₂ c₂ w₂)
    (h₃ : Assembled ctx other ((a₂.push .jmp (some 0) elsePos).patch a₁.nextAddress) a₃ c₃ w₃) :
    Assembled ctx (.ifElse pos condition body elsePos other) a (a₃.patch a₂.nextAddress)
      (fun exit => condition.code ctx a.symbols ++ ⟨⟨.jz, some (a₂.code.length + 1)⟩, pos⟩ ::
        (c₂ exit ++ ⟨⟨.jmp, some a₃.code.length⟩, elsePos⟩ :: c₃ exit)) (w₃ ++ w₂) := by
  have hpush : (a₂.push .jmp (some 0) elsePos).code =
      a₁.code ++ ⟨⟨.jz, some 0⟩, pos⟩ :: (c₂ 0 ++ [⟨⟨.jmp, some 0⟩, elsePos⟩]) := by simp [h₂.code_eq]
  have hpatch := Assembly.code_patch_of_eq hpush a₁.nextAddress_eq
  have hbase₂ : (a₁.push .jz (some 0) pos).code.length = a.code.length + (condition.code ctx a.symbols).length + 1 := by
    simp [hc.code_eq, Nat.add_assoc]
  have hend₂ : a₂.code.length = a.code.length + (condition.code ctx a.symbols).length + 1 + (c₂ 0).length := by
    rw [h₂.code_eq, List.length_append, hbase₂]
  have hbase₃ : ((a₂.push .jmp (some 0) elsePos).patch a₁.nextAddress).code.length = a₂.code.length + 1 := by simp
  have hcode₃ : a₃.code = (a₁.code ++ ⟨⟨.jz, some (a₂.code.length + 1)⟩, pos⟩ :: c₂ 0) ++
      ⟨⟨.jmp, some 0⟩, elsePos⟩ :: c₃ 0 := by
    rw [h₃.code_eq, hpatch]
    simp
  refine ⟨fun exit => ?_, ?_, ?_, fun exit => ?_, fun exit pre post hpre => ?_⟩
  · have hbody := h₂.compiled exit
    have hother := h₃.compiled exit
    refine .ifElse hc.typed hty hc.written (hbody.written_of_scoped hscoped₂) (hother.written_of_scoped hscoped₃)
      (hbase₂ ▸ hbody) ?_ (hbase₃ ▸ hother) ?_
    · rw [h₂.length_eq exit, hend₂]
    · rw [h₃.length_eq exit, h₃.code_eq, List.length_append, hbase₃]
  · rw [Assembly.code_patch_of_eq hcode₃ (by simp [a₂.nextAddress_eq, h₂.code_eq]), hc.code_eq]
    simp
  · rw [Assembly.breaks_patch, h₃.breaks_eq, Assembly.breaks_patch, Assembly.breaks_push, h₂.breaks_eq, Assembly.breaks_push,
      hc.breaks_eq, List.append_assoc]
  · simp [h₂.length_eq exit, h₃.length_eq exit]
  · have hp₃ := h₃.patchAll_eq exit (pre ++ (condition.code ctx a.symbols ++ ⟨⟨.jz, some (a₂.code.length + 1)⟩, pos⟩ ::
      (c₂ 0 ++ [⟨⟨.jmp, some a₃.code.length⟩, elsePos⟩]))) post (by simp [hend₂, hpre]; omega)
    have hp₂ := h₂.patchAll_eq exit (pre ++ (condition.code ctx a.symbols ++ [⟨⟨.jz, some (a₂.code.length + 1)⟩, pos⟩]))
      (⟨⟨.jmp, some a₃.code.length⟩, elsePos⟩ :: (c₃ exit ++ post)) (by simp [hc.code_eq, hpre])
    simp only [List.append_assoc, List.cons_append, List.nil_append] at hp₂ hp₃ ⊢
    rw [patchAll_append, hp₃, hp₂]

/-- The jumps out of a loop are patched when it is complete, so none waits behind it. -/
theorem Assembled.loop {ctx : Context} {pos : Position} {condition : Expr} {body : Stmt} {ty : Ty} {a a₁ a₂ : Assembly}
    {code : Nat → List CodeLine} {w : List Nat} (hc : Expr.Emitted ctx condition ty a a₁) (hty : ty ≠ .void)
    (hscoped : body.Scoped)
    (h : Assembled { ctx with loop := some a.nextAddress } body { a₁.push .jz (some 0) pos with breaks := [] } a₂ code w) :
    Assembled ctx (.loop pos condition body) a
      (a₂.breaks.foldl Assembly.patch
        ((({ a₂ with breaks := a₁.breaks } : Assembly).push .jmp (some a.nextAddress) pos).patch a₁.nextAddress))
      (fun _ => condition.code ctx a.symbols ++ ⟨⟨.jz, some (a₂.code.length + 1)⟩, pos⟩ ::
        (code (a₂.code.length + 1) ++ [⟨⟨.jmp, some a.nextAddress⟩, pos⟩])) [] := by
  have hw : a₂.breaks = w := by rw [h.breaks_eq, List.append_nil]
  have hbase : ({ a₁.push .jz (some 0) pos with breaks := [] } : Assembly).code.length =
      a.code.length + (condition.code ctx a.symbols).length + 1 := by
    change (a₁.push .jz (some 0) pos).code.length = _
    simp [hc.code_eq, Nat.add_assoc]
  generalize hb : ({ a₂ with breaks := a₁.breaks } : Assembly).push .jmp (some a.nextAddress) pos = b
  have hpush : b.code = a₁.code ++ ⟨⟨.jz, some 0⟩, pos⟩ :: (code 0 ++ [⟨⟨.jmp, some a.nextAddress⟩, pos⟩]) := by
    rw [← hb, Assembly.code_push]
    change a₂.code ++ _ = _
    rw [h.code_eq]
    change (a₁.push .jz (some 0) pos).code ++ _ ++ _ = _
    simp
  have hlen : b.code.length = a₂.code.length + 1 := by
    rw [← hb, Assembly.code_push, List.length_append]
    rfl
  refine .of_closed (fun exit => ?_) ?_ ?_
  · have hbody := h.compiled (a₂.code.length + 1)
    rw [Assembly.symbols_foldl_patch, Assembly.symbols_patch, ← hb]
    refine .loop hc.typed hty hc.written (hbody.written_of_scoped hscoped) hscoped (hbase ▸ hbody) ?_
    rw [h.length_eq, h.code_eq, List.length_append, hbase]
  · have hp := h.patchAll_eq (a₂.code.length + 1) (a₁.code ++ [⟨⟨.jz, some (a₂.code.length + 1)⟩, pos⟩])
      [⟨⟨.jmp, some a.nextAddress⟩, pos⟩] (by rw [hbase, List.length_append, hc.code_eq, List.length_append]; rfl)
    simp only [List.append_assoc, List.cons_append, List.nil_append] at hp
    rw [Assembly.code_foldl_patch, Assembly.length_code_patch, Assembly.code_patch_of_eq hpush a₁.nextAddress_eq, hlen, hw, hp,
      hc.code_eq, List.append_assoc]
  · rw [Assembly.breaks_foldl_patch, Assembly.breaks_patch, ← hb]
    exact hc.breaks_eq

/-- A `break` waits itself. -/
theorem Assembled.leave {ctx : Context} {pos : Position} {a : Assembly} (hloop : ctx.loop.isSome) :
    Assembled ctx (.leave pos) a { a.push .jmp (some 0) pos with breaks := a.nextAddress :: a.breaks }
      (fun exit => [⟨⟨.jmp, some exit⟩, pos⟩]) [a.nextAddress] := by
  refine ⟨fun exit => .leave hloop, Assembly.code_push .., rfl, fun _ => rfl, fun exit pre post hpre => ?_⟩
  rw [Assembly.nextAddress_eq, ← hpre]
  exact modify_append_cons _ pre post _

/-- The code of a statement that is emitted is the one with all jump targets, but for the jumps that wait. -/
theorem emitted {ctx : Context} {s : Stmt} (hs : s.Structured) {a a' : Assembly} {u : Unit}
    (h : (s.emit ctx).run a = .ok (u, a')) : ∃ code waiting, Assembled ctx s a a' code waiting := by
  induction s generalizing ctx a a' u with
  | nil =>
    obtain ⟨-, rfl⟩ := run_pure_eq_ok.1 (by rwa [emit_nil] at h)
    exact ⟨_, _, .of_closed (fun _ => .nil) (List.append_nil _).symm rfl⟩
  | empty =>
    obtain ⟨-, rfl⟩ := run_pure_eq_ok.1 (by rwa [emit_empty] at h)
    exact ⟨_, _, .of_closed (fun _ => .empty) (List.append_nil _).symm rfl⟩
  | seq first rest ih₁ ih₂ =>
    obtain ⟨a₁, h₁, h₂⟩ := run_emit_seq.1 h
    obtain ⟨c₁, w₁, h₁⟩ := ih₁ hs.1 h₁
    obtain ⟨c₂, w₂, h₂⟩ := ih₂ hs.2 h₂
    exact ⟨_, _, h₁.seq h₂⟩
  | decl pos constant x target init =>
    cases init with
    | none =>
      obtain ⟨ty, v, t, hname, hty, ht, rfl⟩ := run_emit_decl.1 h
      exact ⟨_, _, .of_closed (fun _ => .decl hty ht) (List.append_nil _).symm rfl⟩
    | some e =>
      obtain ⟨ty, v, t, a₁, t₁, hname, hty, ht, he, ht₁, rfl⟩ := run_emit_init.1 h
      exact ⟨_, _, .init hty ht (Expr.emitted he) ht₁⟩
  | expr e =>
    obtain ⟨ty, a₁, he, rfl⟩ := run_emit_expr.1 h
    exact ⟨_, _, .expr (Expr.emitted he)⟩
  | block body ih =>
    obtain ⟨a₁, h₁, rfl⟩ := run_emit_block.1 h
    obtain ⟨c₁, w₁, h₁⟩ := ih hs h₁
    exact ⟨c₁, w₁, h₁.block⟩
  | ifThen pos condition body ih =>
    obtain ⟨ty, a₁, a₂, hc, hty, h₂, rfl⟩ := run_emit_ifThen.1 h
    obtain ⟨c₂, w₂, h₂⟩ := ih hs.2 h₂
    exact ⟨_, _, .ifThen (Expr.emitted hc) hty hs.1 h₂⟩
  | ifElse pos condition body elsePos other ih₂ ih₃ =>
    obtain ⟨ty, a₁, a₂, a₃, hc, hty, h₂, h₃, rfl⟩ := run_emit_ifElse.1 h
    obtain ⟨hscoped₂, hscoped₃, hs₂, hs₃⟩ := hs
    obtain ⟨c₂, w₂, h₂⟩ := ih₂ hs₂ h₂
    obtain ⟨c₃, w₃, h₃⟩ := ih₃ hs₃ h₃
    exact ⟨_, _, .ifElse (Expr.emitted hc) hty hscoped₂ hscoped₃ h₂ h₃⟩
  | loop pos condition body ih =>
    obtain ⟨ty, a₁, a₂, hc, hty, h₂, rfl⟩ := run_emit_loop.1 h
    obtain ⟨c₂, w₂, h₂⟩ := ih hs.2 h₂
    exact ⟨_, _, .loop (Expr.emitted hc) hty hs.1 h₂⟩
  | leave pos =>
    obtain ⟨hloop, rfl⟩ := run_emit_leave.1 h
    exact ⟨_, _, .leave hloop⟩
  | again pos =>
    obtain ⟨head, hhead, rfl⟩ := run_emit_again.1 h
    exact ⟨_, _, .of_closed (fun _ => .again hhead) (Assembly.code_push ..) rfl⟩
  | ret pos stop =>
    obtain ⟨hty, rfl⟩ := run_emit_ret.1 h
    exact ⟨_, _, .of_closed (fun _ => .ret hty) (Assembly.code_push ..) rfl⟩
  | retValue pos e =>
    obtain ⟨found, a₁, he, hty, rfl⟩ := run_emit_retValue.1 h
    exact ⟨_, _, .retValue (Expr.emitted he) hty⟩
  | fault error => exact (run_throw_eq_ok.1 (by rwa [emit_fault] at h)).elim

end Stmt

end C0Stack
