import C0Stack.Proofs.Code.Stmt
import C0Stack.Proofs.Simulation.Slots

/-!
# The instructions of the code

Which instructions the code of an expression and of a statement can hold, whatever their order. `remote` says that variables of the
outermost scope are in another frame, `callee` holds of the functions that are called, and `target` of the addresses that are jumped
to. A jump of a statement goes to an address of its own code, or just behind it, unless it leaves or repeats a loop around it.
-/

namespace C0Stack

/-! ## Expressions -/

/-- An instruction in the code of an expression. -/
inductive Expr.Line (remote : Prop) (callee : Signature → Prop) : Instruction → Prop
  | lit (n : Nat) : Line remote callee ⟨.lit, some n⟩
  | lod (n : Nat) : Line remote callee ⟨.lod, some n⟩
  | sto (n : Nat) : Line remote callee ⟨.sto, some n⟩
  | lodg (n : Nat) : remote → Line remote callee ⟨.lodg, some n⟩
  | stog (n : Nat) : remote → Line remote callee ⟨.stog, some n⟩
  | operator (op : BinaryOp) : Line remote callee ⟨op.operation, none⟩
  | call (f : Signature) : callee f → Line remote callee ⟨.call, some f.entry⟩

/-- The binding is a variable whose type has values, or a function that may be called. -/
def Binding.Callable (callee : Signature → Prop) (_ : String) : Binding → Prop
  | .storage v => v.ty ≠ .void
  | .function f => callee f

/-- Whether a variable has been written does not matter. -/
theorem Binding.callable_markWritten {callee : Signature → Prop} (x : String) (b : Binding) :
    b.markWritten.Callable callee x ↔ b.Callable callee x := by
  cases b <;> rfl

/-- More functions may be called. -/
theorem Binding.Callable.mono {callee callee' : Signature → Prop} {x : String} {b : Binding} (h : b.Callable callee x)
    (hcallee : ∀ f, callee f → callee' f) : b.Callable callee' x := by
  cases b with
  | storage v => exact h
  | function f => exact hcallee f h

/-- A variable that is declared with a type that has values. -/
theorem Binding.callable_of_declare {callee : Signature → Prop} {t t' : SymbolTable} {x : String} {constant : Bool} {ty : Ty}
    {pos : Position} {v : Variable} (hty : ty ≠ .void) (h : t.declare x constant ty pos = .ok (v, t')) :
    (Binding.storage v).Callable callee x := by
  obtain ⟨-, rfl, -⟩ := SymbolTable.declare_eq_ok.1 h
  exact hty

section

variable {ctx : Context} {callee : Signature → Prop} {t : SymbolTable}

/-- The read of a variable is a line of an expression. -/
theorem Context.line_load (ctx : Context) (callee : Signature → Prop) (v : Variable) :
    Expr.Line ctx.function.isSome callee ⟨ctx.loadOp v, some v.slot⟩ := by
  unfold loadOp isRemote
  split
  · rename_i h
    rw [Bool.and_eq_true] at h
    exact .lodg _ h.2
  · exact .lod _

/-- So is the write of a variable. -/
theorem Context.line_store (ctx : Context) (callee : Signature → Prop) (v : Variable) :
    Expr.Line ctx.function.isSome callee ⟨ctx.storeOp v, some v.slot⟩ := by
  unfold storeOp isRemote
  split
  · rename_i h
    rw [Bool.and_eq_true] at h
    exact .stog _ h.2
  · exact .sto _

namespace Expr

/-- The code for a name is what it is for some binding of the table. -/
theorem mem_codeFor {x : Ident} {g : Binding → List CodeLine} {line : CodeLine} (h : line ∈ t.codeFor x g) :
    ∃ b, t.find? x.name = some b ∧ line ∈ g b := by
  unfold SymbolTable.codeFor at h
  cases hx : t.find? x.name with
  | none =>
    rw [hx] at h
    cases h
  | some b =>
    rw [hx] at h
    exact ⟨b, rfl, h⟩

mutual

/-- The functions that the code of an expression calls are those of the table. -/
theorem line_of_calls (hcalls : ∀ x f, t.find? x = some (.function f) → callee f) {e : Expr} {line : CodeLine}
    (h : line ∈ e.code ctx t) : Line ctx.function.isSome callee line.instruction := by
  cases e with
  | int pos n =>
    rw [code, List.mem_singleton] at h
    subst h
    exact .lit _
  | literal | fault =>
    rw [code] at h
    cases h
  | var x =>
    rw [code] at h
    obtain ⟨b, -, hline⟩ := mem_codeFor h
    cases b with
    | storage v =>
      obtain rfl := List.mem_singleton.1 hline
      exact ctx.line_load callee v
    | function f => cases hline
  | call f args =>
    rw [code, List.mem_append] at h
    rcases h with h | h
    · exact line_of_mem_codeOfAll hcalls h
    · obtain ⟨b, hb, hline⟩ := mem_codeFor h
      cases b with
      | storage v => cases hline
      | function g =>
        obtain rfl := List.mem_singleton.1 hline
        exact .call g (hcalls _ g hb)
  | assign x value =>
    rw [code, List.mem_append] at h
    rcases h with h | h
    · exact line_of_calls hcalls h
    · obtain ⟨b, -, hline⟩ := mem_codeFor h
      cases b with
      | storage v =>
        obtain rfl := List.mem_singleton.1 hline
        exact ctx.line_store callee v
      | function f => cases hline
  | paren _ inner => exact line_of_calls hcalls (by rwa [code] at h)
  | neg pos operand =>
    rw [code, List.mem_cons, List.mem_append, List.mem_singleton] at h
    rcases h with rfl | h | rfl
    · exact .lit 0
    · exact line_of_calls hcalls h
    · exact .operator .sub
  | cast value _ _ => exact line_of_calls hcalls (by rwa [code] at h)
  | binary left op pos right =>
    rw [code, List.mem_append, List.mem_append, List.mem_singleton] at h
    rcases h with h | h | rfl
    · exact line_of_calls hcalls h
    · exact line_of_calls hcalls h
    · exact .operator op
  | cut read _ => exact line_of_calls hcalls (by rwa [code] at h)

/-- The functions that the code of arguments calls are those of the table. -/
theorem line_of_mem_codeOfAll (hcalls : ∀ x f, t.find? x = some (.function f) → callee f) {es : List Expr} {line : CodeLine}
    (h : line ∈ codeOfAll ctx t es) : Line ctx.function.isSome callee line.instruction := by
  cases es with
  | nil =>
    rw [codeOfAll] at h
    cases h
  | cons e es =>
    rw [codeOfAll, List.mem_append] at h
    rcases h with h | h
    · exact line_of_calls hcalls h
    · exact line_of_mem_codeOfAll hcalls h

end

/-- So are those that the code of an expression calls, where all bindings may be called. -/
theorem line_of_mem_code (ht : t.All (Binding.Callable callee)) {e : Expr} {line : CodeLine} (h : line ∈ e.code ctx t) :
    Line ctx.function.isSome callee line.instruction := by
  refine line_of_calls (fun x f hx => ?_) h
  exact ht.of_find? hx

/-- An operand stands where the operation has one. -/
theorem Line.operand_eq {remote : Prop} {i : Instruction} (h : Line remote callee i) : i.operand.isSome = i.op.hasOperand := by
  cases h with
  | operator op => cases op <;> rfl
  | _ => rfl

theorem Line.not_isJump {remote : Prop} {i : Instruction} (h : Line remote callee i) : i.op.isJump = false := by
  cases h with
  | operator op => cases op <;> rfl
  | _ => rfl

theorem Line.ne_ret {remote : Prop} {i : Instruction} (h : Line remote callee i) : i.op ≠ .ret := by
  cases h with
  | operator op => cases op <;> exact Operation.noConfusion
  | _ => exact Operation.noConfusion

/-- A call goes to a function that may be called. -/
theorem Line.callee_of_call {remote : Prop} {i : Instruction} (h : Line remote callee i) (hi : i.op = .call) :
    ∃ f, callee f ∧ i.operand = some f.entry := by
  cases h with
  | operator op => cases op <;> cases hi
  | call f hf => exact ⟨f, hf, rfl⟩
  | _ => cases hi

end Expr

end

/-! ## Statements -/

/-- An instruction in the code of a statement. -/
inductive Stmt.Line (remote : Prop) (callee : Signature → Prop) (target : Nat → Prop) : Instruction → Prop
  | value {i : Instruction} : Expr.Line remote callee i → Line remote callee target i
  | pop : Line remote callee target ⟨.pop, none⟩
  | ret : Line remote callee target ⟨.ret, none⟩
  | jump {op : Operation} {n : Nat} : op.isJump = true → target n → Line remote callee target ⟨op, some n⟩

namespace Stmt

section

variable {remote : Prop} {callee : Signature → Prop} {target target' : Nat → Prop} {i : Instruction}

/-- Jumps may go to more addresses. -/
theorem Line.mono (h : Line remote callee target i) (htarget : ∀ n, target n → target' n) : Line remote callee target' i := by
  cases h with
  | value h => exact .value h
  | pop => exact .pop
  | ret => exact .ret
  | jump hop hn => exact .jump hop (htarget _ hn)

/-- An operand stands where the operation has one. -/
theorem Line.operand_eq (h : Line remote callee target i) : i.operand.isSome = i.op.hasOperand := by
  cases h with
  | value h => exact h.operand_eq
  | pop | ret => rfl
  | @jump op _ hop _ =>
    cases op with
    | jmp | jz => rfl
    | _ => cases hop

/-- A jump goes to one of the targets. -/
theorem Line.target_of_isJump (h : Line remote callee target i) (hi : i.op.isJump = true) : ∃ n, i.operand = some n ∧ target n := by
  cases h with
  | value h =>
    rw [h.not_isJump] at hi
    cases hi
  | pop | ret => cases hi
  | jump _ hn => exact ⟨_, rfl, hn⟩

/-- A call goes to a function that may be called. -/
theorem Line.callee_of_call (h : Line remote callee target i) (hi : i.op = .call) : ∃ f, callee f ∧ i.operand = some f.entry := by
  cases h with
  | value h => exact h.callee_of_call hi
  | pop | ret => cases hi
  | @jump op _ hop _ =>
    obtain rfl : op = .call := hi
    cases hop

end

/-- Where the jumps of a statement go whose code is between the two addresses: there, or out of the loop around it, or back to that
loop's condition. -/
def Target (ctx : Context) (exit low high n : Nat) : Prop :=
  low ≤ n ∧ n ≤ high ∨ ctx.loop.isSome ∧ (n = exit ∨ ctx.loop = some n)

/-- The code may be part of a longer piece. -/
theorem Target.mono {ctx : Context} {exit low high low' high' n : Nat} (h : Target ctx exit low high n) (hlow : low' ≤ low)
    (hhigh : high ≤ high') : Target ctx exit low' high' n := by
  rcases h with ⟨h₁, h₂⟩ | h
  · exact .inl ⟨Nat.le_trans hlow h₁, Nat.le_trans h₂ hhigh⟩
  · exact .inr h

/-- What each instruction of a statement can be. -/
theorem Compiled.line {ctx : Context} {exit : Nat} {t t' : SymbolTable} {base : Nat} {s : Stmt} {code : List CodeLine}
    {callee : Signature → Prop} (h : Compiled ctx exit t base s code t') (ht : t.All (Binding.Callable callee)) {line : CodeLine}
    (hline : line ∈ code) :
    Line ctx.function.isSome callee (Target ctx exit base (base + code.length)) line.instruction := by
  induction h with
  | nil | empty | decl => cases hline
  | seq h₁ h₂ ih₁ ih₂ =>
    have ht₁ := h₁.all Binding.callable_markWritten (fun _ _ hv _ => hv) ht
    rw [List.length_append]
    rcases List.mem_append.1 hline with hline | hline
    · exact (ih₁ ht hline).mono fun n hn => hn.mono (Nat.le_refl _) (by omega)
    · exact (ih₂ ht₁ hline).mono fun n hn => hn.mono (by omega) (by omega)
  | init hty hd =>
    have ht₁ := ht.declare hd (Binding.callable_of_declare hty hd)
    rcases List.mem_append.1 hline with hline | hline
    · exact .value (Expr.line_of_mem_code ht₁ hline)
    · obtain rfl := List.mem_singleton.1 hline
      exact .value (Context.line_store _ callee _)
  | expr =>
    rcases List.mem_append.1 hline with hline | hline
    · exact .value (Expr.line_of_mem_code ht hline)
    · split at hline
      · cases hline
      · obtain rfl := List.mem_singleton.1 hline
        exact .pop
  | block _ ih => exact ih (ht.enter _) hline
  | ifThen _ _ hw _ _ hskip ih =>
    have ht₁ := ht.of_written Binding.callable_markWritten hw
    simp only [List.length_append, List.length_cons]
    rcases List.mem_append.1 hline with hline | hline
    · exact .value (Expr.line_of_mem_code ht hline)
    · rcases List.mem_cons.1 hline with rfl | hline
      · exact .jump rfl (.inl (by omega))
      · exact (ih ht₁ hline).mono fun n hn => hn.mono (by omega) (by omega)
  | ifElse _ _ hw hw' _ _ hskip _ hstop ih ih' =>
    have ht₁ := ht.of_written Binding.callable_markWritten hw
    have ht₂ := ht₁.of_written Binding.callable_markWritten hw'
    simp only [List.length_append, List.length_cons]
    rcases List.mem_append.1 hline with hline | hline
    · exact .value (Expr.line_of_mem_code ht hline)
    · rcases List.mem_cons.1 hline with rfl | hline
      · exact .jump rfl (.inl (by omega))
      · rcases List.mem_append.1 hline with hline | hline
        · exact (ih ht₁ hline).mono fun n hn => hn.mono (by omega) (by omega)
        · rcases List.mem_cons.1 hline with rfl | hline
          · exact .jump rfl (.inl (by omega))
          · exact (ih' ht₂ hline).mono fun n hn => hn.mono (by omega) (by omega)
  | @loop ctx exit stop t t₁ t₂ base pos condition ty body code _ _ hw _ _ _ hstop ih =>
    have ht₁ := ht.of_written Binding.callable_markWritten hw
    simp only [List.length_append, List.length_cons, List.length_nil]
    rcases List.mem_append.1 hline with hline | hline
    · exact .value (Expr.line_of_mem_code ht hline)
    · rcases List.mem_cons.1 hline with rfl | hline
      · exact .jump rfl (.inl (by omega))
      · rcases List.mem_append.1 hline with hline | hline
        · refine (ih ht₁ hline).mono fun n hn => .inl ?_
          -- the loop around the body is this one, so its start and its end are addresses of this statement
          rcases hn with ⟨h₁, h₂⟩ | ⟨-, rfl | hn⟩
          · omega
          · omega
          · cases hn
            omega
        · obtain rfl := List.mem_singleton.1 hline
          exact .jump rfl (.inl (by omega))
  | leave hloop =>
    obtain rfl := List.mem_singleton.1 hline
    exact .jump rfl (.inr ⟨hloop, .inl rfl⟩)
  | again hloop =>
    obtain rfl := List.mem_singleton.1 hline
    exact .jump rfl (.inr ⟨by rw [hloop]; rfl, .inr hloop⟩)
  | ret =>
    obtain rfl := List.mem_singleton.1 hline
    exact .ret
  | retValue =>
    rcases List.mem_append.1 hline with hline | hline
    · exact .value (Expr.line_of_mem_code ht hline)
    · obtain rfl := List.mem_singleton.1 hline
      exact .ret

/-- There are only declarations in sequence. -/
def Declarative : Stmt → Prop
  | nil | decl _ _ _ _ _ => True
  | seq first rest => first.Declarative ∧ rest.Declarative
  | _ => False

/-- Declarations only compute values and store them. -/
theorem Compiled.line_of_declarative {ctx : Context} {exit : Nat} {t t' : SymbolTable} {base : Nat} {s : Stmt}
    {code : List CodeLine} {callee : Signature → Prop} (h : Compiled ctx exit t base s code t') (hs : s.Declarative)
    (ht : t.All (Binding.Callable callee)) {line : CodeLine} (hline : line ∈ code) :
    Expr.Line ctx.function.isSome callee line.instruction := by
  induction h with
  | nil | decl => cases hline
  | seq h₁ _ ih₁ ih₂ =>
    have ht₁ := h₁.all Binding.callable_markWritten (fun _ _ hv _ => hv) ht
    rcases List.mem_append.1 hline with hline | hline
    · exact ih₁ hs.1 ht hline
    · exact ih₂ hs.2 ht₁ hline
  | init hty hd =>
    rcases List.mem_append.1 hline with hline | hline
    · exact Expr.line_of_mem_code (ht.declare hd (Binding.callable_of_declare hty hd)) hline
    · obtain rfl := List.mem_singleton.1 hline
      exact Context.line_store _ callee _
  | _ => exact hs.elim

end Stmt

end C0Stack
